import JiuwenCore.Json
import JiuwenCore.JsonText

/-!
# The todo list

`SessionTodoList` and the tools that change it. An index is a JSON integer of any size; the
library keeps those of 64 bits and reads the others as `double`s, the tools make an `int` of it,
and the list compares it with a size.

An operation gives the element it has touched with the list it leaves.
-/

namespace JiuwenCore.Todo

structure TodoItem where
  content : Str
  status : Str
  result : Str
  deriving DecidableEq, Repr

def pending (content : Str) : TodoItem where
  content := content
  status := lit "pending"
  result := []

def TodoItem.completed (result : Str) (item : TodoItem) : TodoItem :=
  { item with status := lit "completed", result := result }

/-! ## `SessionTodoList` -/

namespace SessionTodoList

def create (contents : List Str) : List TodoItem := contents.map pending

def complete (index : Int32) (result : Str) (items : List TodoItem) :
    Option Nat × List TodoItem :=
  if index.toInt < 0 ∨ items.length ≤ index.toInt.toNat then (none, items)
  else (some index.toInt.toNat, items.modify index.toInt.toNat (·.completed result))

def insert (index : Int32) (content : Str) (items : List TodoItem) : Option Nat × List TodoItem :=
  if index.toInt < 0 then (none, items)
  else
    let index := if items.length < index.toInt.toNat then Int32.ofNat items.length else index
    (some index.toInt.toNat, items.insertIdx index.toInt.toNat (pending content))

def remove (index : Int32) (items : List TodoItem) : Option Nat × List TodoItem :=
  if index.toInt < 0 ∨ items.length ≤ index.toInt.toNat then (none, items)
  else (some index.toInt.toNat, items.eraseIdx index.toInt.toNat)

end SessionTodoList

/-! ## The tools -/

def makeError (msg : Str) : Json := .obj [(lit "error", .str msg), (lit "ok", .bool false)]

def renderItem (i : Nat) (item : TodoItem) : Json :=
  .obj ([(lit "content", .str item.content), (lit "index", .int (Int32.ofNat i).toInt)] ++
    (if item.result ≠ [] then [(lit "result", .str item.result)] else []) ++
    [(lit "status", .str item.status)])

def renderItems (items : List TodoItem) : Json :=
  .arr (items.zipIdx.map fun entry => renderItem entry.2 entry.1)

def makeOk (items : List TodoItem) : Json :=
  .obj [(lit "items", renderItems items), (lit "ok", .bool true)]

/-- What a call answers, before it is dumped, and what it does. -/
structure Called where
  reply : Json
  touched : Option Nat
  items : List TodoItem

def Called.failed (msg : Str) (items : List TodoItem) : Called :=
  { reply := makeError msg, touched := none, items := items }

/-- The answer to an operation that returns whether it has done anything. -/
def Called.of (msg : Str) (done : Option Nat × List TodoItem) : Called :=
  match done with
  | (some i, items) => { reply := makeOk items, touched := some i, items := items }
  | (none, items) => .failed msg items

/-- A call with the arguments the library has read: `what` is the text of its exception, and
`index` must be an integer. -/
def withIndex (lib : JsonLib) (what : Str → Str) (items : List TodoItem) (input : Str)
    (operation : Json → Int32 → Called) : Called :=
  match lib.parse input with
  | none => .failed (lit "invalid JSON: " ++ what input) items
  | some j =>
      match j.member (lit "index") with
      | some (.int i) => operation j (Int32.ofInt i)
      | _ => .failed (lit "'index' (integer) is required") items

def indexError (index : Int32) : Str := lit "index out of range: " ++ Json.printInt index.toInt

/-- `TodoCompleteTool::Invoke`. -/
def todoComplete (lib : JsonLib) (what : Str → Str) (items : List TodoItem) (input : Str) :
    Called :=
  withIndex lib what items input fun j index =>
    .of (indexError index)
      (SessionTodoList.complete index ((j.stringMember (lit "result")).getD []) items)

/-- `TodoInsertTool::Invoke`. -/
def todoInsert (lib : JsonLib) (what : Str → Str) (items : List TodoItem) (input : Str) :
    Called :=
  withIndex lib what items input fun j index =>
    match j.stringMember (lit "content") with
    | none => .failed (lit "'content' (string) is required") items
    | some content =>
        .of (lit "insertion failed at index " ++ Json.printInt index.toInt)
          (SessionTodoList.insert index content items)

/-- `TodoRemoveTool::Invoke`. -/
def todoRemove (lib : JsonLib) (what : Str → Str) (items : List TodoItem) (input : Str) :
    Called :=
  withIndex lib what items input fun _ index =>
    .of (indexError index) (SessionTodoList.remove index items)

/-! ## Success and failure -/

/-- The call reports success. -/
def Called.ok (called : Called) : Prop := called.reply.member (lit "ok") = some (.bool true)

/-- A call that reports an error has touched nothing, and leaves the list. -/
structure Called.Reports (called : Called) (items : List TodoItem) : Prop where
  ok_iff : called.ok ↔ called.touched.isSome = true
  unchanged : called.touched = none → called.items = items

theorem ok_makeOk (items : List TodoItem) :
    (makeOk items).member (lit "ok") = some (.bool true) := by
  have hkey : lit "items" ≠ lit "ok" := by decide
  simp [makeOk, Json.member, hkey]

theorem ok_makeError (msg : Str) : (makeError msg).member (lit "ok") = some (.bool false) := by
  have hkey : lit "error" ≠ lit "ok" := by decide
  simp [makeError, Json.member, hkey]

theorem reports_failed (msg : Str) (items : List TodoItem) :
    (Called.failed msg items).Reports items where
  ok_iff := by simp [Called.ok, Called.failed, ok_makeError]
  unchanged := fun _ => rfl

theorem reports_of {msg : Str} {items : List TodoItem} {done : Option Nat × List TodoItem}
    (h : done.1 = none → done.2 = items) : (Called.of msg done).Reports items := by
  obtain ⟨touched, after⟩ := done
  cases touched with
  | none =>
      rw [show after = items from h rfl]
      exact reports_failed msg items
  | some i => exact ⟨by simp [Called.ok, Called.of, ok_makeOk], nofun⟩

theorem reports_withIndex {lib : JsonLib} {what : Str → Str} {items : List TodoItem} {input : Str}
    {operation : Json → Int32 → Called} (h : ∀ j index, (operation j index).Reports items) :
    (withIndex lib what items input operation).Reports items := by
  unfold withIndex
  split
  · exact reports_failed _ items
  · split
    · exact h _ _
    · exact reports_failed _ items

/-- The two operations on an element that is there, with what they do to it. -/
def located (index : Int32) (change : Nat → List TodoItem → List TodoItem)
    (items : List TodoItem) : Option Nat × List TodoItem :=
  if index.toInt < 0 ∨ items.length ≤ index.toInt.toNat then (none, items)
  else (some index.toInt.toNat, change index.toInt.toNat items)

theorem complete_eq (index : Int32) (result : Str) : SessionTodoList.complete index result =
    located index fun i items => items.modify i (·.completed result) := rfl

theorem remove_eq (index : Int32) :
    SessionTodoList.remove index = located index fun i items => items.eraseIdx i := rfl

theorem located_unchanged {index : Int32} {change : Nat → List TodoItem → List TodoItem}
    {items : List TodoItem} (h : (located index change items).1 = none) :
    (located index change items).2 = items := by
  unfold located at h ⊢
  split
  · rfl
  · rename_i hinside
    rw [if_neg hinside] at h
    cases h

theorem insert_unchanged {index : Int32} {content : Str} {items : List TodoItem}
    (h : (SessionTodoList.insert index content items).1 = none) :
    (SessionTodoList.insert index content items).2 = items := by
  unfold SessionTodoList.insert at h ⊢
  split
  · rfl
  · rename_i hinside
    rw [if_neg hinside] at h
    cases h

theorem reports_todoInsert (lib : JsonLib) (what : Str → Str) (items : List TodoItem)
    (input : Str) : (todoInsert lib what items input).Reports items := by
  refine reports_withIndex fun j index => ?_
  split
  · exact reports_failed _ items
  · exact reports_of insert_unchanged

/-! ## An index of any size -/

/-- The library keeps the integer as one. -/
def Stored (n : Int) : Prop := -2 ^ 63 ≤ n ∧ n < 2 ^ 64

instance (n : Int) : Decidable (Stored n) := inferInstanceAs (Decidable (_ ∧ _))

/-- What the library documents of an integer it reads. -/
def Stores (j : Json) (n : Int) : Prop :=
  if Stored n then j = .int n else ∃ bits, j = .float bits

theorem stores_int {n : Int} (h : Stored n) : Stores (.int n) n := by rw [Stores, if_pos h]

/-- The `int` of an integer. -/
def asInt (n : Int) : Int := (Int32.ofInt n).toInt

theorem stored_of_asInt {n : Int} (h : asInt n = n) : Stored n := by
  have hmin := Int32.le_toInt (Int32.ofInt n)
  have hmax := Int32.toInt_lt (Int32.ofInt n)
  unfold asInt at h
  unfold Stored
  omega

theorem asInt_of_lt {n : Int} (h : 0 ≤ n) (hmax : n < 2 ^ 31) : asInt n = n :=
  Int32.toInt_ofInt_of_le (by omega) hmax

theorem withIndex_stored {lib : JsonLib} {what : Str → Str} {items : List TodoItem} {input : Str}
    {operation : Json → Int32 → Called} {j v : Json} {n : Int} (hparse : lib.parse input = some j)
    (hmember : j.member (lit "index") = some v) (hstores : Stores v n) :
    withIndex lib what items input operation =
      if Stored n then operation j (Int32.ofInt n)
      else .failed (lit "'index' (integer) is required") items := by
  unfold Stores at hstores
  unfold withIndex
  by_cases hn : Stored n
  · rw [if_pos hn] at hstores
    simp only [hparse, hmember, hstores, if_pos hn]
  · rw [if_neg hn] at hstores
    obtain ⟨bits, hbits⟩ := hstores
    simp only [hparse, hmember, hbits, if_neg hn]

/-! ## What the calls should do -/

/-- The call succeeds where it should, on the element it should. -/
structure Called.Does (called : Called) (items : List TodoItem) (accepts : Prop) (position : Nat)
    (after : List TodoItem) : Prop where
  succeeds : called.ok ↔ accepts
  affects : called.ok → called.touched = some position ∧ called.items = after
  unchanged : ¬ called.ok → called.items = items

theorem Called.Reports.not_ok {called : Called} {items : List TodoItem} (h : called.Reports items)
    (hnone : called.touched = none) : ¬ called.ok := by
  rw [h.ok_iff, hnone]
  exact Bool.false_ne_true

theorem Called.Reports.unchanged_of_not_ok {called : Called} {items : List TodoItem}
    (h : called.Reports items) (hfailed : ¬ called.ok) : called.items = items := by
  rw [h.ok_iff, Option.not_isSome_iff_eq_none] at hfailed
  exact h.unchanged hfailed

/-- A call that touches nothing is right where nothing should be touched. -/
theorem does_of_none {called : Called} {items after : List TodoItem} {accepts : Prop}
    {position : Nat} (h : called.Reports items) (hnone : called.touched = none) :
    called.Does items accepts position after ↔ ¬ accepts :=
  ⟨fun hdoes haccepts => h.not_ok hnone (hdoes.succeeds.mpr haccepts), fun haccepts =>
    ⟨iff_of_false (h.not_ok hnone) haccepts, fun hok => absurd hok (h.not_ok hnone),
      h.unchanged_of_not_ok⟩⟩

/-- One that touches an element is right where this element should be touched. -/
theorem does_of_some {called : Called} {items after : List TodoItem} {accepts : Prop}
    {position i : Nat} (h : called.Reports items) (htouched : called.touched = some i)
    (hafter : i = position → called.items = after) :
    called.Does items accepts position after ↔ accepts ∧ i = position := by
  have hok : called.ok := h.ok_iff.mpr (by rw [htouched, Option.isSome_some])
  constructor
  · intro hdoes
    have haffects := (hdoes.affects hok).1
    rw [htouched] at haffects
    exact ⟨hdoes.succeeds.mp hok, Option.some.inj haffects⟩
  · rintro ⟨haccepts, rfl⟩
    exact ⟨iff_of_true hok haccepts, fun _ => ⟨htouched, hafter rfl⟩,
      fun hfailed => absurd hok hfailed⟩

def Within (size : Nat) (n : Int) : Prop := 0 ≤ n ∧ n < size

/-- The tools read the index as it is, or neither it nor what they read is that of an item. -/
def IndexFits (size : Nat) (n : Int) : Prop :=
  asInt n = n ∨ ¬ Within size n ∧ (Stored n → ¬ Within size (asInt n))

/-- The same for an insertion, where all indices from the size on are one. -/
def InsertFits (size : Nat) (n : Int) : Prop :=
  asInt n = n ∨ n < 0 ∧ (Stored n → asInt n < 0) ∨ 0 ≤ n ∧ Stored n ∧ size ≤ n ∧ size ≤ asInt n

instance (size : Nat) (n : Int) : Decidable (Within size n) :=
  inferInstanceAs (Decidable (_ ∧ _))

instance (size : Nat) (n : Int) : Decidable (IndexFits size n) :=
  inferInstanceAs (Decidable (_ ∨ _))

instance (size : Nat) (n : Int) : Decidable (InsertFits size n) :=
  inferInstanceAs (Decidable (_ ∨ _))

/-- The three calls with the index `n`; an insertion is given a text. -/
structure Settles (lib : JsonLib) (what : Str → Str) (items : List TodoItem) (input : Str)
    (j : Json) (n : Int) : Prop where
  complete : (todoComplete lib what items input).Does items (Within items.length n) n.toNat
    (items.modify n.toNat (·.completed ((j.stringMember (lit "result")).getD [])))
  remove : (todoRemove lib what items input).Does items (Within items.length n) n.toNat
    (items.eraseIdx n.toNat)
  insert : ∀ content, j.stringMember (lit "content") = some content →
    (todoInsert lib what items input).Does items (0 ≤ n) (min n.toNat items.length)
      (items.insertIdx (min n.toNat items.length) (pending content))
  unchanged : ¬ (todoInsert lib what items input).ok →
    (todoInsert lib what items input).items = items

section

variable {lib : JsonLib} {what : Str → Str} {items : List TodoItem} {input : Str} {j v : Json}
  {n : Int}

theorem located_of_within {index : Int32} (h : Within items.length index.toInt)
    (change : Nat → List TodoItem → List TodoItem) : located index change items =
      (some index.toInt.toNat, change index.toInt.toNat items) := by
  unfold Within at h
  rw [located, if_neg (by omega)]

theorem located_of_not_within {index : Int32} (h : ¬ Within items.length index.toInt)
    (change : Nat → List TodoItem → List TodoItem) :
    located index change items = (none, items) := by
  unfold Within at h
  rw [located, if_pos (by omega)]

/-- An insertion behind the end goes to the end. -/
theorem insert_of_nonneg {index : Int32} (h : 0 ≤ index.toInt) (content : Str) :
    SessionTodoList.insert index content items = (some (min index.toInt.toNat items.length),
      items.insertIdx (min index.toInt.toNat items.length) (pending content)) := by
  have hmax := Int32.toInt_lt index
  rw [SessionTodoList.insert, if_neg (by omega)]
  by_cases hbehind : items.length < index.toInt.toNat
  · have hend : (Int32.ofNat items.length).toInt.toNat = min index.toInt.toNat items.length := by
      rw [Int32.toInt_ofNat_of_lt (by omega)]
      omega
    simp only [if_pos hbehind, hend]
  · rw [if_neg hbehind, show min index.toInt.toNat items.length = index.toInt.toNat by omega]

theorem insert_of_neg {index : Int32} (h : index.toInt < 0) (content : Str) :
    SessionTodoList.insert index content items = (none, items) := if_pos h

/-! ## When they do it -/

variable (what items) in
theorem located_does_iff (hparse : lib.parse input = some j)
    (hmember : j.member (lit "index") = some v) (hstores : Stores v n)
    (msg : Int32 → Str) (change : Json → Nat → List TodoItem → List TodoItem) :
    (withIndex lib what items input fun j index =>
      .of (msg index) (located index (change j) items)).Does items (Within items.length n) n.toNat
        (change j n.toNat items) ↔ IndexFits items.length n := by
  have hreports : (withIndex lib what items input fun j index =>
      .of (msg index) (located index (change j) items)).Reports items :=
    reports_withIndex fun j index => reports_of located_unchanged
  rw [withIndex_stored hparse hmember hstores] at hreports ⊢
  unfold IndexFits
  by_cases hn : Stored n
  · rw [if_pos hn] at hreports ⊢
    by_cases hin : Within items.length (Int32.ofInt n).toInt
    · rw [located_of_within hin] at hreports ⊢
      rw [does_of_some hreports rfl fun heq => by rw [← heq]; rfl]
      unfold Within at hin ⊢
      unfold asInt
      constructor
      · rintro ⟨hwithin, heq⟩
        left
        omega
      · rintro (heq | ⟨-, hout⟩)
        · omega
        · exact absurd hin (hout hn)
    · rw [located_of_not_within hin] at hreports ⊢
      rw [does_of_none hreports rfl]
      unfold asInt
      constructor
      · exact fun hout => .inr ⟨hout, fun _ => hin⟩
      · rintro (heq | ⟨hout, -⟩)
        · rwa [heq] at hin
        · exact hout
  · rw [if_neg hn] at hreports ⊢
    rw [does_of_none hreports rfl]
    constructor
    · exact fun hout => .inr ⟨hout, fun h => absurd h hn⟩
    · rintro (heq | ⟨hout, -⟩)
      · exact absurd (stored_of_asInt heq) hn
      · exact hout

variable (what items) in
theorem insert_does_iff (hparse : lib.parse input = some j)
    (hmember : j.member (lit "index") = some v) (hstores : Stores v n) (content : Str)
    (hcontent : j.stringMember (lit "content") = some content) :
    (todoInsert lib what items input).Does items (0 ≤ n) (min n.toNat items.length)
      (items.insertIdx (min n.toNat items.length) (pending content)) ↔
        InsertFits items.length n := by
  have hreports := reports_todoInsert lib what items input
  unfold todoInsert at hreports ⊢
  rw [withIndex_stored hparse hmember hstores] at hreports ⊢
  simp only [hcontent] at hreports ⊢
  unfold InsertFits
  by_cases hn : Stored n
  · rw [if_pos hn] at hreports ⊢
    by_cases hpos : 0 ≤ (Int32.ofInt n).toInt
    · rw [insert_of_nonneg hpos] at hreports ⊢
      rw [does_of_some hreports rfl fun heq => by rw [← heq]; rfl]
      have hmax := Int32.toInt_lt (Int32.ofInt n)
      have hsmall := asInt_of_lt (n := n)
      unfold asInt at hsmall ⊢
      simp only [hn, true_imp_iff, true_and]
      omega
    · rw [insert_of_neg (by omega)] at hreports ⊢
      rw [does_of_none hreports rfl]
      unfold asInt
      omega
  · have hne : asInt n ≠ n := fun heq => hn (stored_of_asInt heq)
    rw [if_neg hn] at hreports ⊢
    rw [does_of_none hreports rfl]
    have := hne
    simp only [hn, hne, false_imp_iff, and_true, false_or, false_and, and_false, or_false]
    omega

/-- The three calls are right exactly where the index survives the conversion, or is none before
and after it. -/
theorem settles_iff (hparse : lib.parse input = some j)
    (hmember : j.member (lit "index") = some v) (hstores : Stores v n) :
    Settles lib what items input j n ↔ IndexFits items.length n ∧
      ((j.stringMember (lit "content")).isSome → InsertFits items.length n) := by
  have hcomplete := located_does_iff what items hparse hmember hstores indexError
    fun j i items => items.modify i (·.completed ((j.stringMember (lit "result")).getD []))
  have hremove := located_does_iff what items hparse hmember hstores indexError
    fun _ i items => items.eraseIdx i
  have hinsert := insert_does_iff what items hparse hmember hstores
  constructor
  · intro h
    refine ⟨hcomplete.mp h.complete, fun hsome => ?_⟩
    obtain ⟨content, hcontent⟩ := Option.isSome_iff_exists.mp hsome
    exact (hinsert content hcontent).mp (h.insert content hcontent)
  · rintro ⟨hindex, hfits⟩
    exact
      { complete := hcomplete.mpr hindex
        remove := hremove.mpr hindex
        insert := fun content hcontent =>
          (hinsert content hcontent).mpr (hfits (by rw [hcontent, Option.isSome_some]))
        unchanged := (reports_todoInsert lib what items input).unchanged_of_not_ok }

end

/-- A call with a text and an index. -/
def request (n : Int) : Json := .obj [(lit "content", .str (lit "b")), (lit "index", .int n)]

def requestText (n : Int) : Str :=
  lit "\x7b\"content\":\"b\",\"index\":" ++ Json.printInt n ++ lit "\x7d"

def requestLib (n : Int) : JsonLib := oneTextLib (requestText n) (request n)

theorem requestLib_parse (n : Int) : (requestLib n).parse (requestText n) = some (request n) :=
  oneTextLib_parse _ _

theorem request_index (n : Int) : (request n).member (lit "index") = some (.int n) := rfl

theorem settles_second : Settles (requestLib 1) id [pending (lit "a"), pending (lit "c")]
    (requestText 1) (request 1) 1 :=
  (settles_iff (requestLib_parse 1) (request_index 1) (stores_int (by decide))).mpr
    ⟨by decide, fun _ => by decide⟩

/-- 2^32 is read as 0, and completes the first item. -/
theorem large_index_aliases :
    ¬ ∀ (lib : JsonLib) (what : Str → Str) (items : List TodoItem) (input : Str) (j v : Json)
      (n : Int), lib.parse input = some j → j.member (lit "index") = some v → Stores v n →
        Settles lib what items input j n := by
  intro h
  have hstores : Stores (.int (2 ^ 32)) (2 ^ 32) := stores_int (by decide)
  have hsettles := h (requestLib (2 ^ 32)) id [pending (lit "a")] (requestText (2 ^ 32))
    (request (2 ^ 32)) _ _ (requestLib_parse _) (request_index _) hstores
  have hfits := (located_does_iff _ _ (requestLib_parse _) (request_index _) hstores indexError
    fun j i items => items.modify i (·.completed ((j.stringMember (lit "result")).getD []))).mp
      hsettles.complete
  exact absurd hfits (by decide)

end JiuwenCore.Todo
