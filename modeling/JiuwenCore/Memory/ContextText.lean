import JiuwenCore.Lib.Filtered
import JiuwenCore.Memory.EntityDecay

/-!
# The text of a context package

The text shows each entity and each relation of the package on a line, among other lines. Which
lines the filter takes out is decided by the words of a line, whatever it shows.
-/

namespace JiuwenCore.EntityDecay

open HistoryStore (isSpace)
open LineFeed (getLines)
open Words (IsWord)

/-! ## Lines -/

/-- What a line shows, with the text of a confidence. -/
inductive Line
  | entity (e : MemoryEntity) (confidence : Str)
  | relation (r : MemoryRelation) (confidence : Str)
  | other (text : Str)
  deriving DecidableEq, Repr

namespace Line

def text : Line → Str
  | entity e confidence =>
      lit "- " ++ e.id ++ lit " (" ++ e.entityType ++ lit ", " ++ e.name ++ lit "): " ++ e.summary ++
        lit " (confidence=" ++ confidence ++ lit ")"
  | relation r confidence =>
      lit "- " ++ r.fromEntityId ++ lit " " ++ r.relationType ++ lit " " ++ r.toEntityId ++
        lit " (confidence=" ++ confidence ++ lit ")"
  | other text => text

def entity? : Line → Option MemoryEntity
  | entity e _ => some e
  | _ => none

def relation? : Line → Option MemoryRelation
  | relation r _ => some r
  | _ => none

/-- The line, which is more than one where a name or a summary has a line break. -/
def written (line : Line) : List Str := LineFeed.lines 10 (line.text ++ [10])

/-- Whether what a line shows is in a package. -/
def survives (after : MemoryContextPackage) : Line → Bool
  | entity e _ => e ∈ after.entities
  | relation r _ => r ∈ after.relations
  | other _ => true

end Line

/-- The lines of a text that shows one after the other. -/
def linesOf (layout : List Line) : List Str :=
  getLines 10 (LineFeed.unlines 10 (layout.map Line.text))

theorem linesOf_eq (layout : List Line) : linesOf layout = layout.flatMap Line.written := by
  rw [linesOf, LineFeed.getLines_unlines_eq, List.flatMap_map]
  rfl

/-- The text shows each entity and each relation once, among other lines. -/
structure Rendered (pkg : MemoryContextPackage) (layout : List Line) : Prop where
  lines : getLines 10 pkg.memoryText = linesOf layout
  entities : (layout.filterMap Line.entity?).Perm pkg.entities
  relations : (layout.filterMap Line.relation?).Perm pkg.relations

/-- No relation refers to an entity that is removed, and the text shows what is left. -/
structure Consistent (before after : MemoryContextPackage) (layout : List Line) : Prop where
  relations : ∀ r ∈ after.relations, ∀ e ∈ before.entities, e ∉ after.entities →
    r.fromEntityId ≠ e.id ∧ r.toEntityId ≠ e.id
  text : getLines 10 after.memoryText = linesOf (layout.filter (Line.survives after))

namespace Rendered

variable {pkg : MemoryContextPackage} {layout : List Line} {confidence : Str}

theorem mem_entities (h : Rendered pkg layout) {e : MemoryEntity}
    (hline : .entity e confidence ∈ layout) : e ∈ pkg.entities :=
  h.entities.mem_iff.mp (List.mem_filterMap.mpr ⟨_, hline, rfl⟩)

theorem mem_relations (h : Rendered pkg layout) {r : MemoryRelation}
    (hline : .relation r confidence ∈ layout) : r ∈ pkg.relations :=
  h.relations.mem_iff.mp (List.mem_filterMap.mpr ⟨_, hline, rfl⟩)

end Rendered

/-! ## Names -/

/-- A line names an id as one of its words, or in front of a bracket. -/
def Named (id line : Str) : Prop :=
  IsWord isSpace id line ∨ (lit "- " ++ id ++ lit " (") <+: line

instance (id line : Str) : Decidable (Named id line) := inferInstanceAs (Decidable (_ ∨ _))

theorem namesDropped_iff {droppedIds : List Str} {line : Str} :
    namesDropped droppedIds line = true ↔ ∃ id ∈ droppedIds, Named id line := by
  simp only [namesDropped, Bool.or_eq_true, List.any_eq_true, List.isPrefixOf_iff_prefix,
    Words.mem_words_iff, List.contains_iff_mem, Named]
  constructor
  · intro h
    rcases h with ⟨id, hid, hfront⟩ | ⟨id, hword, hid⟩
    · exact ⟨id, hid, .inr hfront⟩
    · exact ⟨id, hid, .inl hword⟩
  · intro h
    obtain ⟨id, hid, hword | hfront⟩ := h
    · exact .inr ⟨id, hword, hid⟩
    · exact .inl ⟨id, hid, hfront⟩

theorem named_entity (e : MemoryEntity) (confidence : Str) :
    Named e.id (Line.entity e confidence).text := by
  right
  refine ⟨e.entityType ++ lit ", " ++ e.name ++ lit "): " ++ e.summary ++ lit " (confidence=" ++
    confidence ++ lit ")", ?_⟩
  simp only [Line.text, List.append_assoc]

theorem bullet_entity (e : MemoryEntity) (confidence : Str) :
    lit "- " <+: (Line.entity e confidence).text := by
  simp only [Line.text, List.append_assoc]
  exact List.prefix_append _ _

theorem bullet_relation (r : MemoryRelation) (confidence : Str) :
    lit "- " <+: (Line.relation r confidence).text := by
  simp only [Line.text, List.append_assoc]
  exact List.prefix_append _ _

/-- An id that is a word is one wherever a line names it. -/
theorem isWord_of_named {id line : Str} (hid : id ≠ [] ∧ ∀ c ∈ id, isSpace c = false)
    (h : Named id line) : IsWord isSpace id line := by
  rcases h with hword | ⟨behind, rfl⟩
  · exact hword
  · have hline : lit "- " ++ id ++ lit " (" ++ behind = [45] ++ [32] ++ id ++ 32 :: 40 :: behind := by
      simp [lit]
    rw [hline]
    exact Words.isWord_between rfl rfl hid.1 hid.2 [45] (40 :: behind)

theorem isWord_relation {r : MemoryRelation} {id : Str}
    (hid : id ≠ [] ∧ ∀ c ∈ id, isSpace c = false) (h : id = r.fromEntityId ∨ id = r.toEntityId)
    (confidence : Str) : IsWord isSpace id (Line.relation r confidence).text := by
  rcases h with rfl | rfl
  · have hline : (Line.relation r confidence).text = [45] ++ [32] ++ r.fromEntityId ++
        32 :: (r.relationType ++ lit " " ++ r.toEntityId ++ lit " (confidence=" ++ confidence ++
          lit ")") := by
      simp [Line.text, lit]
    rw [hline]
    exact Words.isWord_between rfl rfl hid.1 hid.2 _ _
  · have hline : (Line.relation r confidence).text =
        (lit "- " ++ r.fromEntityId ++ lit " " ++ r.relationType) ++ [32] ++ r.toEntityId ++
          32 :: (lit "(confidence=" ++ confidence ++ lit ")") := by
      simp [Line.text, lit]
    rw [hline]
    exact Words.isWord_between rfl rfl hid.1 hid.2 _ _

section Filter

variable {zone : Zone} {now : Int} {pkg : MemoryContextPackage} {config : Config.MemoryConfig}
  {layout : List Line}

/-- Whether the filter takes out what a line is about. -/
def Line.removed (zone : Zone) (now : Int) (pkg : MemoryContextPackage)
    (config : Config.MemoryConfig) : Line → Bool
  | entity e _ => removes zone now config e
  | relation r _ =>
      (removedIds zone now pkg config).contains r.fromEntityId ||
        (removedIds zone now pkg config).contains r.toEntityId
  | other _ => false

/-- A removed id is named on each line with a bullet that is to go, and on no other; and only
lines with a bullet are to go. -/
structure TellsApart (zone : Zone) (now : Int) (pkg : MemoryContextPackage)
    (config : Config.MemoryConfig) (layout : List Line) : Prop where
  removed : ∀ line ∈ layout, line.removed zone now pkg config → ∀ part ∈ line.written,
    lit "- " <+: part ∧ ∃ id ∈ removedIds zone now pkg config, Named id part
  kept : ∀ line ∈ layout, ¬ line.removed zone now pkg config → ∀ part ∈ line.written,
    lit "- " <+: part → ∀ id ∈ removedIds zone now pkg config, ¬ Named id part

theorem mem_removedIds {e : MemoryEntity} (he : e ∈ pkg.entities)
    (h : removes zone now config e = true) : e.id ∈ removedIds zone now pkg config := by
  rw [removedIds, List.mem_dedup]
  exact List.mem_map_of_mem (List.mem_filter.mpr ⟨he, h⟩)

/-- The lines that are left. -/
theorem getLines_withoutRemoved :
    getLines 10 (withoutRemoved zone now pkg config).memoryText =
      (getLines 10 pkg.memoryText).filter fun line =>
        !((lit "- ").isPrefixOf line && namesDropped (removedIds zone now pkg config) line) := by
  rw [withoutRemoved]
  simp only [rewriteMemoryText]
  split
  · rename_i hids
    have hnone : ∀ line, namesDropped [] line = false := by
      intro line
      rw [Bool.eq_false_iff]
      intro hnames
      obtain ⟨id, hid, -⟩ := namesDropped_iff.mp hnames
      cases hid
    simp [hids, hnone]
  · apply LineFeed.getLines_unlines
    intro line hline
    exact LineFeed.not_mem_of_mem_getLines 10 (List.mem_of_mem_filter hline)

theorem survives_eq (h : Rendered pkg layout) {line : Line} (hline : line ∈ layout) :
    line.survives (withoutRemoved zone now pkg config) = !line.removed zone now pkg config := by
  cases line with
  | other text => rfl
  | entity e confidence =>
      have he : e ∈ pkg.entities := h.mem_entities hline
      simp [Line.survives, Line.removed, withoutRemoved, he]
  | relation r confidence =>
      have hr : r ∈ pkg.relations := h.mem_relations hline
      simp [Line.survives, Line.removed, withoutRemoved, hr]

theorem consistent_relations :
    ∀ r ∈ (withoutRemoved zone now pkg config).relations, ∀ e ∈ pkg.entities,
      e ∉ (withoutRemoved zone now pkg config).entities →
        r.fromEntityId ≠ e.id ∧ r.toEntityId ≠ e.id := by
  intro r hr e he hgone
  have hremoved : removes zone now config e = true := by
    by_contra hkept
    exact hgone (List.mem_filter.mpr ⟨he, by simp [hkept]⟩)
  have hid := mem_removedIds he hremoved
  have hkept := (List.mem_filter.mp hr).2
  constructor
  · intro heq
    simp [heq, hid] at hkept
  · intro heq
    simp [heq, hid] at hkept

/-- The text agrees with the lists just where a removed id tells the lines that are to go. -/
theorem filter_consistent_iff (zone : Zone) (now : Int) (config : Config.MemoryConfig)
    (h : Rendered pkg layout) :
    Consistent pkg (filterExpiredEventEntities zone now pkg config).1 layout ↔
      TellsApart zone now pkg config layout := by
  rw [filterExpiredEventEntities_eq]
  have htext : getLines 10 (withoutRemoved zone now pkg config).memoryText =
        linesOf (layout.filter (Line.survives (withoutRemoved zone now pkg config))) ↔
      ∀ line ∈ layout, ∀ part ∈ line.written, ((lit "- ").isPrefixOf part &&
        namesDropped (removedIds zone now pkg config) part) = line.removed zone now pkg config := by
    rw [getLines_withoutRemoved, h.lines, linesOf_eq, linesOf_eq, Filtered.filter_flatMap_eq_iff]
    refine forall_congr' fun line => forall_congr' fun hline => ?_
    rw [survives_eq h hline]
    simp only [Bool.not_inj_iff]
  constructor
  · intro hconsistent
    have hparts := htext.mp hconsistent.text
    constructor
    · intro line hline hremoved part hpart
      rw [← hparts line hline part hpart, Bool.and_eq_true] at hremoved
      exact ⟨List.isPrefixOf_iff_prefix.mp hremoved.1, namesDropped_iff.mp hremoved.2⟩
    · intro line hline hkept part hpart hbullet id hid hnamed
      rw [← hparts line hline part hpart, Bool.and_eq_true] at hkept
      exact hkept ⟨List.isPrefixOf_iff_prefix.mpr hbullet, namesDropped_iff.mpr ⟨id, hid, hnamed⟩⟩
  · intro happart
    refine ⟨consistent_relations, htext.mpr fun line hline part hpart => ?_⟩
    cases hremoved : line.removed zone now pkg config with
    | false =>
        rw [Bool.and_eq_false_imp]
        intro hbullet
        rw [Bool.eq_false_iff]
        intro hnames
        obtain ⟨id, hid, hnamed⟩ := namesDropped_iff.mp hnames
        exact happart.kept line hline (by simp [hremoved]) part hpart
          (List.isPrefixOf_iff_prefix.mp hbullet) id hid hnamed
    | true =>
        rw [Bool.and_eq_true, List.isPrefixOf_iff_prefix, namesDropped_iff]
        exact happart.removed line hline hremoved part hpart

/-- With ids that are words, it is enough that no line that stays has one of the removed ids
among its words. -/
theorem filter_consistent_of_words (zone : Zone) (now : Int) (config : Config.MemoryConfig)
    (h : Rendered pkg layout) (hlines : ∀ line ∈ layout, 10 ∉ line.text)
    (hids : ∀ id ∈ removedIds zone now pkg config, id ≠ [] ∧ ∀ c ∈ id, isSpace c = false)
    (hkept : ∀ line ∈ layout, ¬ line.removed zone now pkg config → lit "- " <+: line.text →
      ∀ id ∈ removedIds zone now pkg config, ¬ IsWord isSpace id line.text) :
    Consistent pkg (filterExpiredEventEntities zone now pkg config).1 layout := by
  have hwritten : ∀ line ∈ layout, line.written = [line.text] := by
    intro line hline
    rw [Line.written, LineFeed.lines_append_sep 10 (hlines line hline), LineFeed.lines]
  rw [filter_consistent_iff zone now config h]
  constructor
  · intro line hline hremoved part hpart
    rw [hwritten line hline, List.mem_singleton] at hpart
    subst hpart
    cases line with
    | other text => cases hremoved
    | entity e confidence =>
        exact ⟨bullet_entity e confidence, e.id, mem_removedIds (h.mem_entities hline) hremoved,
          named_entity e confidence⟩
    | relation r confidence =>
        refine ⟨bullet_relation r confidence, ?_⟩
        rw [Line.removed, Bool.or_eq_true, List.contains_iff_mem, List.contains_iff_mem] at hremoved
        rcases hremoved with hid | hid
        · exact ⟨r.fromEntityId, hid, .inl (isWord_relation (hids _ hid) (.inl rfl) confidence)⟩
        · exact ⟨r.toEntityId, hid, .inl (isWord_relation (hids _ hid) (.inr rfl) confidence)⟩
  · intro line hline hremoved part hpart hbullet id hid hnamed
    rw [hwritten line hline, List.mem_singleton] at hpart
    subst hpart
    exact hkept line hline hremoved hbullet id hid (isWord_of_named (hids id hid) hnamed)

end Filter

/-! ## Two packages -/

def inUtc : Zone := fun _ => 0

def oldTopic : MemoryEntity where
  id := lit "topic.old"
  entityType := lit "topic"
  name := lit "Old topic"
  summary := lit "stale"
  updatedAt := lit "2026-06-20 00:00:00"

def preference (summary : Str) : MemoryEntity where
  id := lit "preference.persist"
  entityType := lit "preference"
  name := lit "Persist"
  summary := summary
  updatedAt := lit "2025-07-20 00:00:00"

def related : MemoryRelation where
  id := lit "rel1"
  fromEntityId := lit "topic.old"
  relationType := lit "related_to"
  toEntityId := lit "preference.persist"

def shown (summary : Str) : List Line :=
  [.other (lit "## Memory Entities"), .entity oldTopic (lit "0.95"),
    .entity (preference summary) (lit "0.95"), .other [], .relation related (lit "0.9")]

def package (summary : Str) : MemoryContextPackage where
  memoryText := LineFeed.unlines 10 ((shown summary).map Line.text)
  entities := [oldTopic, preference summary]
  relations := [related]

theorem package_rendered (summary : Str) : Rendered (package summary) (shown summary) where
  lines := rfl
  entities := .refl _
  relations := .refl _

def mention : Str := lit "replaces topic.old since May"

/-- A summary that mentions the removed topic, and its line goes with it. -/
theorem filter_mention :
    Rendered (package mention) (shown mention) ∧
      ¬ Consistent (package mention)
        (filterExpiredEventEntities inUtc 1784505600 (package mention) {}).1 (shown mention) := by
  refine ⟨package_rendered mention, fun hconsistent => ?_⟩
  have htext := hconsistent.text
  revert htext
  decide

theorem filter_consistent_short :
    Consistent (package (lit "short answers"))
      (filterExpiredEventEntities inUtc 1784505600 (package (lit "short answers")) {}).1
      (shown (lit "short answers")) :=
  (filter_consistent_iff inUtc 1784505600 {} (package_rendered _)).mpr ⟨by decide, by decide⟩

end JiuwenCore.EntityDecay
