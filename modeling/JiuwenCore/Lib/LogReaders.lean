import JiuwenCore.Lib.Runs

/-!
# Readers of a log

A log grows at its end, and a position in it is stored beside it. A reader notes the stored
position, takes the first items behind it, and stores the position behind the last of them
when it is done, or leaves without storing. Several readers may be under way.

A store that still finds the position its reader has noted continues the stored ranges where
they end. If every store does, they follow each other; if one does not, its range begins
with an item that another reader has finished.
-/

namespace JiuwenCore.LogReaders

universe u

/-! ## Ranges -/

/-- The positions from `start` up to `stop`. -/
structure Span where
  start : Nat
  stop : Nat
  deriving DecidableEq, Repr

namespace Span

def Holds (s : Span) (k : Nat) : Prop := s.start ≤ k ∧ k < s.stop

instance (s : Span) (k : Nat) : Decidable (s.Holds k) := inferInstanceAs (Decidable (_ ∧ _))

def slice {α : Type u} (s : Span) (items : List α) : List α :=
  (items.drop s.start).take (s.stop - s.start)

end Span

/-- The ranges are not empty and follow each other from `a` to `b`. -/
def Follows (a : Nat) : List Span → Nat → Prop
  | [], b => a = b
  | s :: rest, b => s.start = a ∧ a < s.stop ∧ Follows s.stop rest b

theorem Follows.le {a b : Nat} {spans : List Span} (h : Follows a spans b) : a ≤ b := by
  induction spans generalizing a with
  | nil => exact Nat.le_of_eq h
  | cons s rest ih =>
      have hrest := ih h.2.2
      have hs := h.2.1
      omega

theorem Follows.append {a b c : Nat} {spans more : List Span} (h : Follows a spans b)
    (hmore : Follows b more c) : Follows a (spans ++ more) c := by
  induction spans generalizing a with
  | nil =>
      cases h
      exact hmore
  | cons s rest ih => exact ⟨h.1, h.2.1, ih h.2.2⟩

theorem Follows.snoc {a b c : Nat} {spans : List Span} (h : Follows a spans b) (hlt : b < c) :
    Follows a (spans ++ [⟨b, c⟩]) c :=
  h.append ⟨rfl, hlt, rfl⟩

theorem Follows.bounds {a b : Nat} {spans : List Span} (h : Follows a spans b) :
    ∀ s ∈ spans, a ≤ s.start ∧ s.start < s.stop ∧ s.stop ≤ b := by
  induction spans generalizing a with
  | nil => simp
  | cons s rest ih =>
      rcases h with ⟨rfl, hlt, hrest⟩
      intro t ht
      have hle := hrest.le
      rcases List.mem_cons.mp ht with rfl | ht
      · omega
      · have hbounds := ih hrest t ht
        omega

/-- What the ranges hold, one behind the other, is what lies between the ends. -/
theorem Follows.flatten {α : Type u} (items : List α) {a b : Nat} {spans : List Span}
    (h : Follows a spans b) :
    (spans.map (·.slice items)).flatten = Span.slice ⟨a, b⟩ items := by
  induction spans generalizing a with
  | nil =>
      cases h
      simp [Span.slice]
  | cons s rest ih =>
      rcases s with ⟨start, stop⟩
      rcases h with ⟨rfl, hlt, hrest⟩
      have hle := hrest.le
      rw [List.map_cons, List.flatten_cons, ih hrest]
      dsimp only at hlt hle ⊢
      have hdrop : items.drop stop = (items.drop start).drop (stop - start) := by
        rw [List.drop_drop]
        congr 1
        omega
      have hlength : b - start = (stop - start) + (b - stop) := by omega
      simp only [Span.slice]
      rw [hdrop, hlength, List.take_add]

theorem Follows.apart {a b : Nat} {spans : List Span} (h : Follows a spans b) :
    spans.Pairwise fun s t => ∀ k, s.Holds k → ¬ t.Holds k := by
  induction spans generalizing a with
  | nil => exact List.Pairwise.nil
  | cons s rest ih =>
      rcases h with ⟨rfl, hlt, hrest⟩
      refine List.pairwise_cons.mpr ⟨fun t ht k hs htk => ?_, ih hrest⟩
      have hbounds := hrest.bounds t ht
      simp only [Span.Holds] at hs htk
      omega

theorem Follows.increasing {a b : Nat} {spans : List Span} (h : Follows a spans b) :
    (a :: spans.map (·.stop)).Pairwise (· ≤ ·) := by
  induction spans generalizing a with
  | nil => exact List.pairwise_singleton _ _
  | cons s rest ih =>
      rcases h with ⟨rfl, hlt, hrest⟩
      refine List.pairwise_cons.mpr ⟨fun p hp => ?_, ih hrest⟩
      obtain ⟨t, ht, rfl⟩ := List.mem_map.mp hp
      rcases List.mem_cons.mp ht with rfl | ht
      · omega
      · have hbounds := hrest.bounds t ht
        omega

/-- Where a range ends, the next one begins or all of them end. -/
theorem Follows.next {a b : Nat} {spans : List Span} (h : Follows a spans b) {p : Nat}
    (hp : p = a ∨ ∃ s ∈ spans, s.stop = p) : p = b ∨ ∃ s ∈ spans, s.start = p ∧ p < s.stop := by
  induction spans generalizing a with
  | nil =>
      cases h
      simpa using hp
  | cons s rest ih =>
      rcases h with ⟨rfl, hlt, hrest⟩
      rcases hp with rfl | ⟨t, ht, rfl⟩
      · exact .inr ⟨s, List.mem_cons_self, rfl, hlt⟩
      · have hrest' : t.stop = s.stop ∨ ∃ s' ∈ rest, s'.stop = t.stop := by
          rcases List.mem_cons.mp ht with rfl | ht
          · exact .inl rfl
          · exact .inr ⟨t, ht, rfl⟩
        rcases ih hrest hrest' with hend | ⟨s', hs', hstart⟩
        · exact .inl hend
        · exact .inr ⟨s', List.mem_cons_of_mem _ hs', hstart⟩

/-- Every position between the ends is in a range. -/
theorem Follows.covers {a b : Nat} {spans : List Span} (h : Follows a spans b) {k : Nat}
    (hle : a ≤ k) (hlt : k < b) : ∃ s ∈ spans, s.Holds k := by
  induction spans generalizing a with
  | nil =>
      cases h
      omega
  | cons s rest ih =>
      rcases h with ⟨rfl, hs, hrest⟩
      by_cases hk : k < s.stop
      · exact ⟨s, List.mem_cons_self, hle, hk⟩
      · obtain ⟨t, ht, hholds⟩ := ih hrest (by omega)
        exact ⟨t, List.mem_cons_of_mem _ ht, hholds⟩

/-! ## The system -/

inductive Reader where
  | idle
  | noted (start : Nat)
  | working (span : Span)
  deriving DecidableEq, Repr

structure Log (α : Type u) where
  items : List α
  position : Nat
  readers : List Reader
  /-- The ranges that were taken, and those whose readers have stored. -/
  taken : List Span
  stored : List Span
  /-- How many readings have ended. -/
  passes : Nat

inductive Event (α : Type u) where
  | append (item : α)
  | join
  | note (i : Nat)
  | take (i count : Nat)
  | store (i : Nat)
  | leave (i : Nat)

variable {α : Type u}

def step (l : Log α) : Event α → Option (Log α)
  | .append item => some { l with items := l.items ++ [item] }
  | .join => some { l with readers := l.readers ++ [.idle] }
  | .note i =>
      match l.readers[i]? with
      | some .idle => some { l with readers := l.readers.set i (.noted l.position) }
      | _ => none
  | .take i count =>
      match l.readers[i]? with
      | some (.noted start) =>
          if 0 < count ∧ start + count ≤ l.items.length then
            some { l with
              readers := l.readers.set i (.working ⟨start, start + count⟩)
              taken := l.taken ++ [⟨start, start + count⟩] }
          else none
      | _ => none
  | .store i =>
      match l.readers[i]? with
      | some (.working span) =>
          some { l with
            position := span.stop
            readers := l.readers.set i .idle
            stored := l.stored ++ [span]
            passes := l.passes + 1 }
      | _ => none
  | .leave i =>
      match l.readers[i]? with
      | some (.noted _) | some (.working _) =>
          some { l with readers := l.readers.set i .idle, passes := l.passes + 1 }
      | _ => none

/-- No reader is under way, and none has been. -/
structure Fresh (l : Log α) : Prop where
  idle : ∀ r ∈ l.readers, r = .idle
  taken : l.taken = []
  stored : l.stored = []
  within : l.position ≤ l.items.length

/-- Everything a step can do. -/
inductive Step (l : Log α) : Event α → Log α → Prop
  | append (item : α) : Step l (.append item) { l with items := l.items ++ [item] }
  | join : Step l .join { l with readers := l.readers ++ [.idle] }
  | note {i : Nat} (hi : l.readers[i]? = some .idle) :
      Step l (.note i) { l with readers := l.readers.set i (.noted l.position) }
  | take {i start count : Nat} (hi : l.readers[i]? = some (.noted start)) (hcount : 0 < count)
      (hlength : start + count ≤ l.items.length) :
      Step l (.take i count) { l with
        readers := l.readers.set i (.working ⟨start, start + count⟩)
        taken := l.taken ++ [⟨start, start + count⟩] }
  | store {i : Nat} {span : Span} (hi : l.readers[i]? = some (.working span)) :
      Step l (.store i) { l with
        position := span.stop
        readers := l.readers.set i .idle
        stored := l.stored ++ [span]
        passes := l.passes + 1 }
  | leave {i : Nat} {r : Reader} (hi : l.readers[i]? = some r) (hr : r ≠ .idle) :
      Step l (.leave i) { l with readers := l.readers.set i .idle, passes := l.passes + 1 }

theorem step_spec {l l' : Log α} {e : Event α} (h : step l e = some l') : Step l e l' := by
  cases e with
  | append item =>
      cases h
      exact .append item
  | join =>
      cases h
      exact .join
  | note i =>
      simp only [step] at h
      split at h
      · rename_i hidle
        cases h
        exact .note hidle
      · cases h
  | take i count =>
      simp only [step] at h
      split at h
      · rename_i start hnoted
        split at h
        · rename_i hcount
          cases h
          exact .take hnoted hcount.1 hcount.2
        · cases h
      · cases h
  | store i =>
      simp only [step] at h
      split at h
      · rename_i span hworking
        cases h
        exact .store hworking
      · cases h
  | leave i =>
      simp only [step] at h
      split at h
      · rename_i start hnoted
        cases h
        exact .leave hnoted nofun
      · rename_i span hworking
        cases h
        exact .leave hworking nofun
      · cases h

/-! ## Stores that find the position they have noted -/

/-- The step is no store, or nobody has stored since its reader has noted the position. -/
def Unmoved (l : Log α) : Event α → Prop
  | .store i => ∀ span, l.readers[i]? = some (.working span) → span.start = l.position
  | _ => True

/-- The position never went back, and no item was finished twice. -/
structure Sound (a : Nat) (l : Log α) : Prop where
  increasing : (a :: l.stored.map (·.stop)).Pairwise (· ≤ ·)
  apart : l.stored.Pairwise fun s t => ∀ k, s.Holds k → ¬ t.Holds k

def Reader.start? : Reader → Option Nat
  | idle => none
  | noted start => some start
  | working span => some span.start

/-- The ranges that were stored follow each other up to the position, and what a reader has
noted is where one of them ends. -/
structure Chained (a : Nat) (l : Log α) : Prop where
  follows : Follows a l.stored l.position
  noted : ∀ r ∈ l.readers, ∀ p, r.start? = some p → p = a ∨ ∃ s ∈ l.stored, s.stop = p
  proper : ∀ span, .working span ∈ l.readers → span.start < span.stop

variable {a : Nat} {l l' : Log α}

theorem Chained.sound (h : Chained a l) : Sound a l :=
  ⟨h.follows.increasing, h.follows.apart⟩

theorem Fresh.chained (h : Fresh l) : Chained l.position l where
  follows := by
    rw [h.stored]
    rfl
  noted r hr p hp := by
    rw [h.idle r hr] at hp
    cases hp
  proper span hspan := by
    cases h.idle _ hspan

/-- A reader has moved without storing. -/
theorem Chained.of_set (h : Chained a l) {i passes : Nat} {r : Reader} {taken : List Span}
    (hnoted : ∀ p, r.start? = some p → p = a ∨ ∃ s ∈ l.stored, s.stop = p)
    (hproper : ∀ span, r = .working span → span.start < span.stop) :
    Chained a { l with readers := l.readers.set i r, taken := taken, passes := passes } where
  follows := h.follows
  noted r' hr' p hp := by
    rcases List.mem_or_eq_of_mem_set hr' with hr' | rfl
    · exact h.noted r' hr' p hp
    · exact hnoted p hp
  proper span hspan := by
    rcases List.mem_or_eq_of_mem_set hspan with hspan | hspan
    · exact h.proper span hspan
    · exact hproper span hspan.symm

/-- Where the ranges end now is noted by nobody, or one of them ends there. -/
theorem Chained.position_noted (h : Chained a l) :
    l.position = a ∨ ∃ s ∈ l.stored, s.stop = l.position := by
  have hfollows := h.follows
  rcases List.eq_nil_or_concat l.stored with hnil | ⟨front, last, hlast⟩
  · rw [hnil] at hfollows
    exact .inl hfollows.symm
  · right
    rw [List.concat_eq_append] at hlast
    refine ⟨last, by rw [hlast]; exact List.mem_append_right _ List.mem_cons_self, ?_⟩
    have hall : ∀ (spans : List Span) (b : Nat), Follows b (spans ++ [last]) l.position →
        last.stop = l.position := by
      intro spans
      induction spans with
      | nil =>
          intro b hb
          exact hb.2.2
      | cons s rest ih =>
          intro b hb
          exact ih s.stop hb.2.2
    rw [hlast] at hfollows
    exact hall front a hfollows

theorem Chained.step (h : Chained a l) {e : Event α} (hok : Unmoved l e)
    (hstep : LogReaders.step l e = some l') : Chained a l' := by
  cases step_spec hstep with
  | append item => exact ⟨h.follows, h.noted, h.proper⟩
  | join =>
      refine ⟨h.follows, fun r hr p hp => ?_, fun span hspan => ?_⟩
      · rcases List.mem_append.mp hr with hr | hr
        · exact h.noted r hr p hp
        · rw [List.mem_singleton.mp hr] at hp
          cases hp
      · rcases List.mem_append.mp hspan with hspan | hspan
        · exact h.proper span hspan
        · cases List.mem_singleton.mp hspan
  | note hi =>
      apply h.of_set
      · intro p hp
        cases hp
        exact h.position_noted
      · intro span hspan
        cases hspan
  | take hi hcount hlength =>
      apply h.of_set
      · exact h.noted (.noted _) (List.mem_of_getElem? hi)
      · intro span hspan
        cases hspan
        exact Nat.lt_add_of_pos_right hcount
  | @store i span hi =>
      have hmem : Reader.working span ∈ l.readers := List.mem_of_getElem? hi
      have hstart : span.start = l.position := hok span hi
      refine ⟨?_, fun r hr p hp => ?_, fun span' hspan' => ?_⟩
      · have hproper := h.proper span hmem
        rw [hstart] at hproper
        have hsnoc := h.follows.snoc hproper
        rwa [← hstart] at hsnoc
      · rcases List.mem_or_eq_of_mem_set hr with hr | rfl
        · rcases h.noted r hr p hp with heq | ⟨s, hs, hstop⟩
          · exact .inl heq
          · exact .inr ⟨s, List.mem_append_left _ hs, hstop⟩
        · cases hp
      · rcases List.mem_or_eq_of_mem_set hspan' with hspan' | hspan'
        · exact h.proper span' hspan'
        · cases hspan'
  | leave hi hr =>
      apply h.of_set
      · intro p hp
        cases hp
      · intro span hspan
        cases hspan

theorem chained_run (hfresh : Fresh l) (h : Run step Unmoved l l') : Chained l.position l' :=
  h.invariant hfresh.chained fun _ _ _ hchained hok hstep => hchained.step hok hstep

/-- The ranges that were stored stay, so what is wrong with them stays wrong. -/
theorem Sound.before {e : Event α} (h : Sound a l') (hstep : LogReaders.step l e = some l') :
    Sound a l := by
  cases step_spec hstep with
  | store hi =>
      refine ⟨h.increasing.sublist ?_, h.apart.sublist (List.sublist_append_left _ _)⟩
      exact ((List.sublist_append_left _ _).map _).cons_cons _
  | append item => exact ⟨h.increasing, h.apart⟩
  | join => exact ⟨h.increasing, h.apart⟩
  | note hi => exact ⟨h.increasing, h.apart⟩
  | take hi hcount hlength => exact ⟨h.increasing, h.apart⟩
  | leave hi hr => exact ⟨h.increasing, h.apart⟩

/-- A store that does not find the position it has noted finishes an item again. -/
theorem Chained.unmoved (h : Chained a l) {e : Event α} (hstep : LogReaders.step l e = some l')
    (hsound : Sound a l') : Unmoved l e := by
  cases step_spec hstep with
  | @store i span hi =>
      intro span' hspan'
      rw [hi] at hspan'
      cases hspan'
      have hmem : Reader.working span ∈ l.readers := List.mem_of_getElem? hi
      rcases h.follows.next (h.noted _ hmem span.start rfl) with hend | ⟨s, hs, hstart, hstop⟩
      · exact hend
      · have hapart := (List.pairwise_append.mp hsound.apart).2.2 s hs span
          (List.mem_singleton.mpr rfl) span.start
        have hproper := h.proper span hmem
        exact absurd ⟨Nat.le_refl _, hproper⟩ (hapart ⟨Nat.le_of_eq hstart, hstop⟩)
  | append item => trivial
  | join => trivial
  | note hi => trivial
  | take hi hcount hlength => trivial
  | leave hi hr => trivial

/-! ## One reader at a time -/

/-- A reader starts when no other is under way, and leaves only when there is nothing behind
the position it has noted. -/
def InTurn (l : Log α) : Event α → Prop
  | .note _ => ∀ r ∈ l.readers, r = .idle
  | .leave i => ∃ start, l.readers[i]? = some (.noted start) ∧ l.items.length ≤ start
  | _ => True

/-- How the only reader under way stands to what was stored. -/
def Reader.Current (l : Log α) : Reader → Prop
  | idle => True
  | noted start => start = l.position ∧ l.taken = l.stored
  | working span => span.start = l.position ∧ span.start < span.stop ∧
      span.stop ≤ l.items.length ∧ l.taken = l.stored ++ [span]

/-- Only one reader is under way, and its range is the only one that is not stored. -/
structure Alone (a : Nat) (l : Log α) : Prop where
  follows : Follows a l.stored l.position
  within : l.position ≤ l.items.length
  one : ∀ (i j : Nat) (r r' : Reader), l.readers[i]? = some r → l.readers[j]? = some r' →
    r ≠ Reader.idle → r' ≠ Reader.idle → i = j
  current : ∀ r ∈ l.readers, r.Current l
  calm : (∀ r ∈ l.readers, r = .idle) → l.taken = l.stored

theorem Fresh.alone (h : Fresh l) : Alone l.position l where
  follows := by
    rw [h.stored]
    rfl
  within := h.within
  one i j r r' hi hj hr hr' := absurd (h.idle r (List.mem_of_getElem? hi)) hr
  current r hr := by
    rw [h.idle r hr]
    trivial
  calm _ := by rw [h.taken, h.stored]

/-- Everything that was taken, up to where the current range ends. -/
theorem Alone.taken (h : Alone a l) :
    ∃ b, Follows a l.taken b ∧ l.position ≤ b ∧ b ≤ l.items.length := by
  by_cases hidle : ∀ r ∈ l.readers, r = .idle
  · exact ⟨l.position, h.calm hidle ▸ h.follows, Nat.le_refl _, h.within⟩
  · push Not at hidle
    rcases hidle with ⟨r, hmem, hr⟩
    have hcurrent := h.current r hmem
    cases r with
    | idle => exact absurd rfl hr
    | noted start =>
        exact ⟨l.position, hcurrent.2 ▸ h.follows, Nat.le_refl _, h.within⟩
    | working span =>
        rcases hcurrent with ⟨hstart, hproper, hstop, htaken⟩
        have hfollows : Follows a (l.stored ++ [span]) span.stop :=
          h.follows.append ⟨hstart, by omega, rfl⟩
        exact ⟨span.stop, htaken ▸ hfollows, by omega, hstop⟩

/-- The others are idle while one is under way. -/
theorem Alone.others (h : Alone a l) {i : Nat} {r : Reader} (hi : l.readers[i]? = some r)
    (hr : r ≠ .idle) {j : Nat} {r' : Reader} (hj : l.readers[j]? = some r') (hne : j ≠ i) :
    r' = .idle := by
  by_contra hr'
  exact hne (h.one j i r' r hj hi hr' hr)

/-- After the reader under way has moved, it is the only one that may be. -/
theorem one_of_set {readers : List Reader} {i : Nat} {new : Reader}
    (hothers : ∀ j r, readers[j]? = some r → j ≠ i → r = .idle) (j k : Nat) (r r' : Reader)
    (hj : (readers.set i new)[j]? = some r) (hk : (readers.set i new)[k]? = some r')
    (hr : r ≠ .idle) (hr' : r' ≠ .idle) : j = k := by
  have hat : ∀ {n : Nat} {q : Reader}, (readers.set i new)[n]? = some q → q ≠ .idle → n = i := by
    intro n q hn hq
    by_contra hne
    rw [List.getElem?_set_ne (Ne.symm hne)] at hn
    exact hq (hothers n q hn hne)
  rw [hat hj hr, hat hk hr']

theorem current_of_set {readers : List Reader} {i : Nat} {new : Reader} {l : Log α}
    (hothers : ∀ j r, readers[j]? = some r → j ≠ i → r = .idle) (hnew : new.Current l) :
    ∀ r ∈ readers.set i new, r.Current l := by
  intro r hr
  obtain ⟨j, hj⟩ := List.mem_iff_getElem?.mp hr
  by_cases hji : j = i
  · rw [hji] at hj
    have hr : new = r := by
      rw [List.getElem?_set_self'] at hj
      cases hreaders : readers[i]? with
      | none =>
          rw [hreaders] at hj
          cases hj
      | some old =>
          rw [hreaders] at hj
          exact Option.some.inj hj
    exact hr ▸ hnew
  · rw [List.getElem?_set_ne (Ne.symm hji)] at hj
    rw [hothers j r hj hji]
    trivial

theorem Alone.step (h : Alone a l) {e : Event α} (hok : InTurn l e)
    (hstep : LogReaders.step l e = some l') : Alone a l' := by
  cases step_spec hstep with
  | append item =>
      refine ⟨h.follows, ?_, h.one, fun r hr => ?_, h.calm⟩
      · have hwithin := h.within
        simp only [List.length_append, List.length_singleton]
        omega
      · have hcurrent := h.current r hr
        cases r with
        | idle => trivial
        | noted start => exact hcurrent
        | working span =>
            rcases hcurrent with ⟨hstart, hproper, hstop, htaken⟩
            refine ⟨hstart, hproper, ?_, htaken⟩
            simp only [List.length_append, List.length_singleton]
            omega
  | join =>
      refine ⟨h.follows, h.within, fun i j r r' hi hj hr hr' => ?_, fun r hr => ?_, fun hidle => ?_⟩
      · have hold : ∀ {n : Nat} {q : Reader}, (l.readers ++ [Reader.idle])[n]? = some q →
            q ≠ .idle → l.readers[n]? = some q := by
          intro n q hn hq
          by_cases hlt : n < l.readers.length
          · rwa [List.getElem?_append_left hlt] at hn
          · rw [List.getElem?_append_right (by omega)] at hn
            exact absurd (List.mem_singleton.mp (List.mem_of_getElem? hn)) hq
        exact h.one i j r r' (hold hi hr) (hold hj hr') hr hr'
      · rcases List.mem_append.mp hr with hr | hr
        · exact h.current r hr
        · rw [List.mem_singleton.mp hr]
          trivial
      · exact h.calm fun r hr => hidle r (List.mem_append_left _ hr)
  | @note i hi =>
      have hothers : ∀ j r, l.readers[j]? = some r → j ≠ i → r = .idle :=
        fun j r hj _ => hok r (List.mem_of_getElem? hj)
      refine ⟨h.follows, h.within, one_of_set hothers, ?_, fun _ => h.calm hok⟩
      exact current_of_set hothers ⟨rfl, h.calm hok⟩
  | @take i start count hi hcount hlength =>
      have hothers : ∀ j r, l.readers[j]? = some r → j ≠ i → r = .idle :=
        fun j r hj hne => h.others hi nofun hj hne
      rcases h.current _ (List.mem_of_getElem? hi) with ⟨hstart, htaken⟩
      refine ⟨h.follows, h.within, one_of_set hothers, ?_, fun hidle => ?_⟩
      · apply current_of_set hothers
        refine ⟨hstart, ?_, hlength, ?_⟩
        · exact Nat.lt_add_of_pos_right hcount
        · rw [htaken]
      · have hmem : Reader.working ⟨start, start + count⟩ ∈
            l.readers.set i (.working ⟨start, start + count⟩) := by
          apply List.mem_set
          exact (List.getElem?_eq_some_iff.mp hi).1
        cases hidle _ hmem
  | @store i span hi =>
      have hothers : ∀ j r, l.readers[j]? = some r → j ≠ i → r = .idle :=
        fun j r hj hne => h.others hi nofun hj hne
      rcases h.current _ (List.mem_of_getElem? hi) with ⟨hstart, hproper, hstop, htaken⟩
      refine ⟨?_, hstop, one_of_set hothers, current_of_set hothers trivial, fun _ => htaken⟩
      exact h.follows.append ⟨hstart, by omega, rfl⟩
  | @leave i r hi hr =>
      have hothers : ∀ j r, l.readers[j]? = some r → j ≠ i → r = .idle :=
        fun j r' hj hne => h.others hi hr hj hne
      rcases hok with ⟨start, hnoted, _⟩
      have hcurrent := h.current _ (List.mem_of_getElem? hnoted)
      exact ⟨h.follows, h.within, one_of_set hothers, current_of_set hothers trivial,
        fun _ => hcurrent.2⟩

theorem alone_run (hfresh : Fresh l) (h : Run step InTurn l l') : Alone l.position l' :=
  h.invariant hfresh.alone fun _ _ _ halone hok hstep => halone.step hok hstep

/-! ## Progress -/

theorem items_run {ok : Log α → Event α → Prop} (h : Run step ok l l') : l.items <+: l'.items := by
  apply h.invariant (motive := fun t => l.items <+: t.items) (List.prefix_refl _)
  intro s e s' hitems _ hstep
  cases step_spec hstep with
  | append item => exact hitems.trans (List.prefix_append _ _)
  | join => exact hitems
  | note hi => exact hitems
  | take hi hcount hlength => exact hitems
  | store hi => exact hitems
  | leave hi hr => exact hitems

/-- Each reading that ends brings the position on by one item at least, until it is behind the
items that were there. -/
theorem position_run (h : Alone a l) (hrun : Run step InTurn l l') :
    l.items.length ≤ l'.position ∨
      l.position + (l'.passes - l.passes) ≤ l'.position ∧ l.passes ≤ l'.passes := by
  induction hrun with
  | start =>
      right
      omega
  | @next t t' e hbefore hok hstep ih =>
      have halone : Alone a t :=
        hbefore.invariant h fun _ _ _ halone hok hstep => halone.step hok hstep
      have hitems := (items_run hbefore).length_le
      cases step_spec hstep with
      | append item => exact ih
      | join => exact ih
      | note hi => exact ih
      | take hi hcount hlength => exact ih
      | store hi =>
          rcases halone.current _ (List.mem_of_getElem? hi) with ⟨hstart, hproper, _⟩
          dsimp only
          omega
      | leave hi hr =>
          rcases hok with ⟨start, hnoted, hend⟩
          have hcurrent := (halone.current _ (List.mem_of_getElem? hnoted)).1
          dsimp only
          omega

end JiuwenCore.LogReaders
