import JiuwenCore.JsonReader
import Mathlib.Data.List.Chain

/-!
# Records kept as JSON objects

A record is written as an object with one member for each of its fields, and an object is
merged into a record: a member overrides the field, a missing one leaves it. A field comes
with the law that what it writes is read back; that a whole record is read back follows once
for all of them.
-/

namespace JiuwenCore

variable {σ τ α : Type}

/-- One field of a record. `merge` and `absent` are what an object with the member and one
without do to a record, `none` where that throws; `copy a b` is `b` with this field of `a`. -/
structure Field (σ : Type) where
  key : Str
  merge : Json → σ → Option σ
  absent : σ → Option σ := some
  write : σ → Json
  copy : σ → σ → σ
  /-- What the library needs to hold what is written of the field. -/
  valid : σ → Prop := fun _ => True
  back : ∀ a b, merge (write a) b = some (copy a b)
  regular : ∀ a, valid a → (write a).regular = true ∧ (write a).Utf8Only

/-- The fields of a record, in the order of their keys. -/
structure Record (σ : Type) where
  fields : List (Field σ)
  sorted : (fields.map (·.key)).IsChain (· < ·)
  text : ∀ key ∈ fields.map (·.key), Utf8.Text key

/-! ## Writing and merging -/

/-- What an object does to one field. -/
def Field.mergeInto (f : Field σ) (j : Json) (out : σ) : Option σ :=
  match j.member f.key with
  | some v => f.merge v out
  | none => f.absent out

def mergeFields : List (Field σ) → Json → σ → Option σ
  | [], _, out => some out
  | f :: rest, j, out => (f.mergeInto j out).bind (mergeFields rest j)

def copyFields : List (Field σ) → σ → σ → σ
  | [], _, b => b
  | f :: rest, a, b => copyFields rest a (f.copy a b)

namespace Record

/-- The object of a record. -/
def write (r : Record σ) (a : σ) : Json := .obj (r.fields.map fun f => (f.key, f.write a))

/-- Merges a value into a record; anything but an object is ignored. -/
def merge (r : Record σ) (j : Json) (out : σ) : Option σ :=
  if j.isObject then mergeFields r.fields j out else some out

/-- The second record with the fields of the first one. -/
def copy (r : Record σ) (a b : σ) : σ := copyFields r.fields a b

def Valid (r : Record σ) (a : σ) : Prop := ∀ f ∈ r.fields, f.valid a

end Record

theorem Json.member_of_mem {members : List (Str × Json)} {key : Str} {v : Json}
    (h : (members.map (·.1)).Pairwise (· < ·)) (hmem : (key, v) ∈ members) :
    (Json.obj members).member key = some v := by
  induction members with
  | nil => cases hmem
  | cons entry rest ih =>
      rw [List.map_cons, List.pairwise_cons] at h
      rcases List.mem_cons.mp hmem with rfl | hrest
      · simp [Json.member]
      · have hne : entry.1 ≠ key := by
          intro heq
          have hlt := h.1 key (List.mem_map_of_mem hrest)
          rw [heq] at hlt
          exact Std.lt_irrefl hlt
        have hfound := ih h.2 hrest
        simp only [Json.member] at hfound ⊢
        rw [List.find?_cons_of_neg (by simpa using hne)]
        exact hfound

theorem mergeFields_back {j : Json} {a : σ} (fields : List (Field σ))
    (h : ∀ f ∈ fields, j.member f.key = some (f.write a)) (b : σ) :
    mergeFields fields j b = some (copyFields fields a b) := by
  induction fields generalizing b with
  | nil => rfl
  | cons f rest ih =>
      obtain ⟨hfirst, hrest⟩ := List.forall_mem_cons.mp h
      have hmerge : f.mergeInto j b = some (f.copy a b) := by
        rw [Field.mergeInto, hfirst]
        exact f.back a b
      rw [mergeFields, hmerge, Option.bind_some, copyFields]
      exact ih hrest (f.copy a b)

namespace Record

variable (r : Record σ)

theorem keys_pairwise : (r.fields.map (·.key)).Pairwise (· < ·) :=
  List.isChain_iff_pairwise.mp r.sorted

theorem write_member (a : σ) {f : Field σ} (hf : f ∈ r.fields) :
    (r.write a).member f.key = some (f.write a) := by
  apply Json.member_of_mem
  · rw [List.map_map]
    exact r.keys_pairwise
  · exact List.mem_map_of_mem hf

/-- A record that is written and merged into another one overrides it. -/
theorem merge_write (a b : σ) : r.merge (r.write a) b = some (r.copy a b) :=
  mergeFields_back r.fields (fun _ hf => r.write_member a hf) b

/-- The library can hold what is written of a valid record. -/
theorem write_regular {a : σ} (h : r.Valid a) :
    (r.write a).regular = true ∧ (r.write a).Utf8Only := by
  rw [write, Json.regular_obj, Json.utf8Only_obj, List.map_map]
  refine ⟨⟨r.keys_pairwise, ?_⟩, ?_⟩
  · intro entry hentry
    obtain ⟨f, hf, rfl⟩ := List.mem_map.mp hentry
    exact (f.regular a (h f hf)).1
  · intro entry hentry
    obtain ⟨f, hf, rfl⟩ := List.mem_map.mp hentry
    exact ⟨r.text f.key (List.mem_map_of_mem hf), (f.regular a (h f hf)).2⟩

end Record

/-! ## Kinds of fields -/

/-- How a value is kept: `read` says what overrides it, if anything does, and is `none` where
it throws. -/
structure Codec (α : Type) where
  read : Json → Option (Option α)
  write : α → Json
  valid : α → Prop := fun _ => True
  back : ∀ a, read (write a) = some (some a)
  regular : ∀ a, valid a → (write a).regular = true ∧ (write a).Utf8Only

namespace Codec

def string : Codec Str where
  read j := j.getString.map some
  write := .str
  valid := Utf8.Text
  back _ := rfl
  regular _ h := ⟨rfl, Json.utf8Only_str.mpr h⟩

def bool : Codec Bool where
  read
    | .bool b => some (some b)
    | _ => none
  write := .bool
  back _ := rfl
  regular _ _ := ⟨rfl, Json.utf8Only_bool⟩

theorem regular_int32 (i : Int32) :
    (Json.int i.toInt).regular = true ∧ (Json.int i.toInt).Utf8Only := by
  have hlow := i.le_toInt
  have hhigh := i.toInt_lt
  refine ⟨?_, Json.utf8Only_int⟩
  rw [Json.regular, decide_eq_true_iff]
  omega

def int (lib : JsonLib) : Codec Int32 where
  read j := (j.getInt lib).map some
  write i := .int i.toInt
  back i := by
    simp only [Json.getInt, Option.map_some]
    rw [Int32.ofInt_toInt]
  regular i _ := regular_int32 i

/-- `get<double>()`; `ofInt` converts an integer. -/
def double (ofInt : Int → UInt64) : Codec UInt64 where
  read
    | .float bits => some (some bits)
    | .int i => some (some (ofInt i))
    | _ => none
  write := .float
  valid := Json.finiteBits
  back _ := rfl
  regular _ h := ⟨decide_eq_true h, Json.utf8Only_float⟩

theorem filterMap_getString (items : List Str) :
    (items.map Json.str).filterMap Json.getString = items := by
  induction items with
  | nil => rfl
  | cons item rest ih =>
      simp only [List.map_cons, List.filterMap_cons, Json.getString]
      rw [ih]

/-- An array replaces the list with its strings; anything else leaves it. -/
def strings : Codec (List Str) where
  read
    | .arr items => some (some (items.filterMap Json.getString))
    | _ => some none
  write items := .arr (items.map .str)
  valid items := ∀ item ∈ items, Utf8.Text item
  back items := congrArg (fun read => some (some read)) (filterMap_getString items)
  regular items h := by
    rw [Json.regular_arr, Json.utf8Only_arr]
    constructor
    · intro item hitem
      obtain ⟨s, _, rfl⟩ := List.mem_map.mp hitem
      rfl
    · intro item hitem
      obtain ⟨s, hs, rfl⟩ := List.mem_map.mp hitem
      exact Json.utf8Only_str.mpr (h s hs)

/-- A name of an enumeration; an unknown one leaves the value. `lenient` ones are left by
anything but a string too, where the others throw. -/
def enum (toString : α → Str) (fromString : Str → Option α) (lenient : Bool)
    (text : ∀ a, Utf8.Text (toString a)) (back : ∀ a, fromString (toString a) = some a) :
    Codec α where
  read j :=
    match j.getString with
    | some s => some (fromString s)
    | none => if lenient then some none else none
  write a := .str (toString a)
  back a := congrArg some (back a)
  regular a _ := ⟨rfl, Json.utf8Only_str.mpr (text a)⟩

end Codec

namespace Field

/-- A field that is kept by a codec. -/
def value (codec : Codec α) (key : Str) (get : σ → α) (set : α → σ → σ) : Field σ where
  key := key
  merge j out := (codec.read j).map fun
    | some a => set a out
    | none => out
  write a := codec.write (get a)
  copy a b := set (get a) b
  valid a := codec.valid (get a)
  back a b := by rw [codec.back, Option.map_some]
  regular a h := codec.regular (get a) h

/-- A field that is a record. -/
def record (r : Record τ) (key : Str) (get : σ → τ) (set : τ → σ → σ) : Field σ where
  key := key
  merge j out := (r.merge j (get out)).map fun t => set t out
  write a := r.write (get a)
  copy a b := set (r.copy (get a) (get b)) b
  valid a := r.Valid (get a)
  back a b := by rw [r.merge_write, Option.map_some]
  regular _ h := r.write_regular h

end Field

/-! ## What a merge leaves alone -/

section

variable {ρ : Type} {π : σ → ρ} {f : Field σ} {fields : List (Field σ)} {j : Json} {a b : σ}

/-- The field leaves `π` of a record alone. -/
structure Field.Keeps (f : Field σ) (π : σ → ρ) : Prop where
  merge : ∀ j a b, f.merge j a = some b → π b = π a
  absent : ∀ a b, f.absent a = some b → π b = π a

theorem Field.value_keeps {codec : Codec α} {key : Str} {get : σ → α} {set : α → σ → σ}
    (h : ∀ x a, π (set x a) = π a) : (Field.value codec key get set).Keeps π where
  merge j a b hmerge := by
    rw [Field.value, Option.map_eq_some_iff] at hmerge
    rcases hmerge with ⟨read, _, rfl⟩
    cases read with
    | none => rfl
    | some x => exact h x a
  absent a b habsent := by rw [Option.some.inj habsent]

theorem Field.record_keeps {r : Record τ} {key : Str} {get : σ → τ} {set : τ → σ → σ}
    (h : ∀ x a, π (set x a) = π a) : (Field.record r key get set).Keeps π where
  merge j a b hmerge := by
    rw [Field.record, Option.map_eq_some_iff] at hmerge
    rcases hmerge with ⟨t, _, rfl⟩
    exact h t a
  absent a b habsent := by rw [Option.some.inj habsent]

theorem Field.Keeps.mergeInto (h : f.Keeps π) (hmerge : f.mergeInto j a = some b) : π b = π a := by
  unfold Field.mergeInto at hmerge
  split at hmerge
  · exact h.merge _ a b hmerge
  · exact h.absent a b hmerge

theorem mergeFields_keeps (h : ∀ f ∈ fields, f.Keeps π) (hmerge : mergeFields fields j a = some b) :
    π b = π a := by
  induction fields generalizing a with
  | nil => rw [Option.some.inj hmerge]
  | cons f rest ih =>
      rw [List.forall_mem_cons] at h
      rw [mergeFields, Option.bind_eq_some_iff] at hmerge
      rcases hmerge with ⟨mid, hfirst, hrest⟩
      rw [ih h.2 hrest, h.1.mergeInto hfirst]

/-- A list of fields of which only `f` touches `π`. -/
inductive Field.SoleIn (f : Field σ) (π : σ → ρ) : List (Field σ) → Prop where
  | here {rest : List (Field σ)} : (∀ g ∈ rest, g.Keeps π) → f.SoleIn π (f :: rest)
  | there {g : Field σ} {rest : List (Field σ)} : g.Keeps π → f.SoleIn π rest →
      f.SoleIn π (g :: rest)

/-- What a merge does to `π` is what the one field that touches it does. -/
theorem Field.SoleIn.merge (h : f.SoleIn π fields) (hmerge : mergeFields fields j a = some b) :
    ∃ a' b', π a' = π a ∧ f.mergeInto j a' = some b' ∧ π b = π b' := by
  induction h generalizing a with
  | here hrest =>
      rw [mergeFields, Option.bind_eq_some_iff] at hmerge
      rcases hmerge with ⟨mid, hfirst, hmerge⟩
      exact ⟨a, mid, rfl, hfirst, mergeFields_keeps hrest hmerge⟩
  | there hg _ ih =>
      rw [mergeFields, Option.bind_eq_some_iff] at hmerge
      rcases hmerge with ⟨mid, hfirst, hmerge⟩
      rcases ih hmerge with ⟨a', b', ha, hf, hb⟩
      exact ⟨a', b', ha.trans (hg.mergeInto hfirst), hf, hb⟩

end

end JiuwenCore
