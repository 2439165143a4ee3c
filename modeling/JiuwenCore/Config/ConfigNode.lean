import JiuwenCore.Lib.Fields
import JiuwenCore.Config.AgentConfig

/-!
# Free parameters as JSON

`ConfigNodeToJson` and `ConfigNodeFromJson`. What is written of a node is read back, but for
pointers to no node: those are written as empty objects.
-/

namespace JiuwenCore.Config

/-! ## Numbers -/

/-- Finite: not all bits of the exponent are set. -/
def finiteFloat (bits : UInt32) : Prop := bits >>> 23 &&& 0xFF ≠ 0xFF

instance (bits : UInt32) : Decidable (finiteFloat bits) := inferInstanceAs (Decidable (_ ≠ _))

/-- The conversions of numbers: an integer to a `double`, a `double` to a `float`, a `float`
to a `double`. Every finite `float` is a finite `double`, from which it comes back. -/
structure Numbers where
  ofInt : Int → UInt64
  narrow : UInt64 → UInt32
  widen : UInt32 → UInt64
  finite : ∀ bits, finiteFloat bits → Json.finiteBits (widen bits)
  back : ∀ bits, finiteFloat bits → narrow (widen bits) = bits

/-- Conversions that are right on zero. -/
def sampleNumbers : Numbers where
  ofInt := fun _ => 0
  narrow := UInt64.toUInt32
  widen := UInt32.toUInt64
  finite := by
    intro bits _ h
    have hlt := bits.toNat_lt
    have heq := congrArg UInt64.toNat h
    simp only [UInt64.toNat_and, UInt64.toNat_shiftRight, UInt32.toNat_toUInt64] at heq
    have hzero : bits.toNat >>> 52 = 0 := by
      rw [Nat.shiftRight_eq_div_pow]
      omega
    simp [hzero] at heq
  back := by
    intro bits _
    simp

/-- A `float` that has been a `double` in between. -/
def Numbers.again (nums : Numbers) (bits : UInt32) : UInt32 := nums.narrow (nums.widen bits)

namespace ConfigValue

mutual

/-- The strings are UTF-8 and the numbers finite. -/
def Valid : ConfigValue → Prop
  | .float bits => finiteFloat bits
  | .string s => Utf8.Text s
  | .strings items => ∀ item ∈ items, Utf8.Text item
  | .node fields => FieldsValid fields
  | .int _ | .bool _ | .none => True

def FieldsValid : List (Str × ConfigValue) → Prop
  | [] => True
  | (key, value) :: rest => (Utf8.Text key ∧ value.Valid) ∧ FieldsValid rest

end

end ConfigValue

variable (lib : JsonLib) (nums : Numbers)

mutual

/-- A value of `ConfigNodeToJson`: no node is an empty object. -/
def valueToJson : ConfigValue → Json
  | .int i => .int i.toInt
  | .float bits => .float (nums.widen bits)
  | .bool b => .bool b
  | .string s => .str s
  | .strings items => .arr (items.map .str)
  | .node fields => .obj (fieldsToJson fields)
  | .none => .obj []

def fieldsToJson : List (Str × ConfigValue) → List (Str × Json)
  | [] => []
  | (key, value) :: rest => (key, valueToJson value) :: fieldsToJson rest

end

def configNodeToJson (node : ConfigNode) : Json := .obj (fieldsToJson nums node.fields)

/-- An item of an array: a string, or the text of any other value. -/
def itemText : Json → Option Str
  | .str s => some s
  | item => lib.dump item

mutual

/-- A value of `ConfigNodeFromJson`: `none` where it throws, `some none` for `null`. -/
def valueFromJson : Json → Option (Option ConfigValue)
  | .bool b => some (some (.bool b))
  | .int i => some (some (.int (Int32.ofInt i)))
  | .float bits => some (some (.float (nums.narrow bits)))
  | .str s => some (some (.string s))
  | .arr items => (items.mapM (itemText lib)).map fun arr => some (.strings arr)
  | .obj members => (fieldsFromJson members []).map fun fields => some (.node fields)
  | .null => some none

def fieldsFromJson : List (Str × Json) → List (Str × ConfigValue) →
    Option (List (Str × ConfigValue))
  | [], out => some out
  | (key, item) :: rest, out =>
      match valueFromJson item with
      | none => none
      | some none => fieldsFromJson rest out
      | some (some value) =>
          fieldsFromJson rest (OrderedMap.updateEntries key .none (fun _ => value) out)

end

/-! ## What is read is a map -/

open ConfigValue (fieldsOrdered)

theorem fieldsOrdered_iff {fields : List (Str × ConfigValue)} :
    fieldsOrdered fields = true ↔ ∀ entry ∈ fields, entry.2.ordered = true := by
  induction fields with
  | nil => simp [fieldsOrdered]
  | cons entry rest ih => rw [fieldsOrdered, Bool.and_eq_true, ih, List.forall_mem_cons]

theorem ordered_node {fields : List (Str × ConfigValue)} :
    (ConfigValue.node fields).ordered = true ↔
      (fields.map (·.1)).Pairwise (· < ·) ∧ ∀ entry ∈ fields, entry.2.ordered = true := by
  rw [ConfigValue.ordered, Bool.and_eq_true, decide_eq_true_iff, fieldsOrdered_iff]

theorem ordered_set {fields : List (Str × ConfigValue)} {value : ConfigValue}
    (h : (ConfigValue.node fields).ordered = true) (hvalue : value.ordered = true) (key : Str) :
    (ConfigValue.node (OrderedMap.updateEntries key .none (fun _ => value) fields)).ordered =
      true := by
  rw [ordered_node] at h ⊢
  refine ⟨OrderedMap.updateEntries_sorted key _ _ fields h.1, fun entry hentry => ?_⟩
  rcases OrderedMap.mem_updateEntries hentry with hold | ⟨_, rfl⟩
  · exact h.2 entry hold
  · exact hvalue

mutual

theorem valueFromJson_ordered {j : Json} {value : ConfigValue}
    (h : valueFromJson lib nums j = some (some value)) : value.ordered = true := by
  match j with
  | .bool _ | .int _ | .float _ | .str _ =>
      rw [valueFromJson, Option.some.injEq, Option.some.injEq] at h
      rw [← h, ConfigValue.ordered]
  | .arr _ =>
      rw [valueFromJson, Option.map_eq_some_iff] at h
      rcases h with ⟨arr, _, heq⟩
      rw [← Option.some.inj heq, ConfigValue.ordered]
  | .obj members =>
      rw [valueFromJson, Option.map_eq_some_iff] at h
      rcases h with ⟨fields, hfields, heq⟩
      rw [← Option.some.inj heq]
      exact fieldsFromJson_ordered rfl hfields
  | .null => cases h

theorem fieldsFromJson_ordered {members : List (Str × Json)}
    {out fields : List (Str × ConfigValue)} (hout : (ConfigValue.node out).ordered = true)
    (h : fieldsFromJson lib nums members out = some fields) :
    (ConfigValue.node fields).ordered = true := by
  match members with
  | [] =>
      rw [fieldsFromJson, Option.some.injEq] at h
      exact h ▸ hout
  | (key, item) :: rest =>
      rw [fieldsFromJson] at h
      split at h
      · cases h
      · exact fieldsFromJson_ordered hout h
      · rename_i hvalue
        exact fieldsFromJson_ordered (ordered_set hout (valueFromJson_ordered hvalue) key) h

end

/-- `ConfigNodeFromJson` into a new node, `none` where it throws. -/
def configNodeFromJson : Json → Option ConfigNode
  | .obj members =>
      match h : fieldsFromJson lib nums members [] with
      | some fields => some ⟨fields, fieldsFromJson_ordered lib nums rfl h⟩
      | none => none
  | _ => some .empty

/-! ## What is written is read back -/

namespace ConfigValue

section

variable (f : UInt32 → UInt32)

mutual

/-- What comes back of a value whose numbers come back as `f`: an empty node for no node. -/
def back : ConfigValue → ConfigValue
  | .float bits => .float (f bits)
  | .node fields => .node (backFields fields)
  | .none => .node []
  | .int i => .int i
  | .bool b => .bool b
  | .string s => .string s
  | .strings items => .strings items

def backFields : List (Str × ConfigValue) → List (Str × ConfigValue)
  | [] => []
  | (key, value) :: rest => (key, back value) :: backFields rest

end

theorem backFields_keys (fields : List (Str × ConfigValue)) :
    (backFields f fields).map (·.1) = fields.map (·.1) := by
  induction fields with
  | nil => rfl
  | cons entry rest ih => rw [backFields, List.map_cons, List.map_cons, ih]

mutual

theorem back_ordered {value : ConfigValue} (h : value.ordered = true) :
    (value.back f).ordered = true := by
  match value with
  | .node fields =>
      rw [ordered_node] at h
      rw [back, ordered_node, backFields_keys]
      exact ⟨h.1, backFields_ordered h.2⟩
  | .none | .int _ | .float _ | .bool _ | .string _ | .strings _ => rfl

theorem backFields_ordered {fields : List (Str × ConfigValue)}
    (h : ∀ entry ∈ fields, entry.2.ordered = true) :
    ∀ entry ∈ backFields f fields, entry.2.ordered = true := by
  match fields with
  | [] => exact fun _ hentry => absurd hentry List.not_mem_nil
  | (key, value) :: rest =>
      rw [List.forall_mem_cons] at h
      rw [backFields, List.forall_mem_cons]
      exact ⟨back_ordered h.1, backFields_ordered h.2⟩

end

end

mutual

/-- Finite numbers come back as they are. -/
theorem back_again {value : ConfigValue} (h : value.Valid) :
    value.back nums.again = value.back id := by
  match value with
  | .node fields => rw [back, back, backFields_again h]
  | .float bits => rw [back, back, Numbers.again, nums.back bits h, id_eq]
  | .none | .int _ | .bool _ | .string _ | .strings _ => rfl

theorem backFields_again {fields : List (Str × ConfigValue)} (h : FieldsValid fields) :
    backFields nums.again fields = backFields id fields := by
  match fields with
  | [] => rfl
  | (key, value) :: rest =>
      rw [backFields, backFields, back_again h.1.2, backFields_again h.2]

end

end ConfigValue

open ConfigValue (backFields FieldsValid)

theorem fieldsToJson_keys (fields : List (Str × ConfigValue)) :
    (fieldsToJson nums fields).map (·.1) = fields.map (·.1) := by
  induction fields with
  | nil => rfl
  | cons entry rest ih => rw [fieldsToJson, List.map_cons, List.map_cons, ih]

theorem itemText_str (items : List Str) :
    (items.map Json.str).mapM (itemText lib) = some items := by
  induction items with
  | nil => rfl
  | cons item rest ih => simp [List.mapM_cons, itemText, ih]

mutual

theorem valueFromJson_toJson {value : ConfigValue} (h : value.ordered = true) :
    valueFromJson lib nums (valueToJson nums value) = some (some (value.back nums.again)) := by
  match value with
  | .int i => simp [valueToJson, valueFromJson, ConfigValue.back]
  | .float _ | .bool _ | .string _ => rfl
  | .strings items =>
      rw [valueToJson, valueFromJson, itemText_str]
      rfl
  | .node fields =>
      rw [ordered_node] at h
      rw [valueToJson, valueFromJson, fieldsFromJson_toJson h.1 h.2 [] (by simp)]
      rfl
  | .none => rfl

theorem fieldsFromJson_toJson {fields : List (Str × ConfigValue)}
    (hkeys : (fields.map (·.1)).Pairwise (· < ·)) (hvalues : ∀ entry ∈ fields, entry.2.ordered = true)
    (out : List (Str × ConfigValue))
    (hout : ∀ k ∈ out.map (·.1), ∀ key ∈ fields.map (·.1), k < key) :
    fieldsFromJson lib nums (fieldsToJson nums fields) out =
      some (out ++ backFields nums.again fields) := by
  match fields with
  | [] => rw [fieldsToJson, fieldsFromJson, backFields, List.append_nil]
  | (key, value) :: rest =>
      rw [List.map_cons, List.pairwise_cons] at hkeys
      rw [List.forall_mem_cons] at hvalues
      have hahead : ∀ k ∈ out.map (·.1), k < key := fun k hk => hout k hk key (by simp)
      simp only [fieldsToJson, fieldsFromJson, valueFromJson_toJson hvalues.1]
      rw [OrderedMap.updateEntries_of_lt _ _ hahead, fieldsFromJson_toJson hkeys.2 hvalues.2,
        backFields, List.append_assoc, List.singleton_append]
      intro k hk k' hk'
      rw [List.map_append, List.mem_append] at hk
      rcases hk with hk | hk
      · exact hout k hk k' (List.mem_cons_of_mem _ hk')
      · rw [List.mem_singleton.mp hk]
        exact hkeys.1 k' hk'

end

mutual

theorem valueToJson_regular {value : ConfigValue} (h : value.ordered = true)
    (hvalid : value.Valid) :
    (valueToJson nums value).regular = true ∧ (valueToJson nums value).Utf8Only := by
  match value with
  | .int i => exact Codec.regular_int32 i
  | .float bits => exact (Codec.double nums.ofInt).regular _ (nums.finite bits hvalid)
  | .bool b => exact Codec.bool.regular b trivial
  | .string s => exact Codec.string.regular s hvalid
  | .strings items => exact Codec.strings.regular items hvalid
  | .node fields =>
      rw [ordered_node] at h
      have hfields := fieldsToJson_regular h.2 hvalid
      rw [valueToJson, Json.regular_obj, Json.utf8Only_obj, fieldsToJson_keys]
      exact ⟨⟨h.1, fun entry hentry => (hfields entry hentry).1⟩,
        fun entry hentry => (hfields entry hentry).2⟩
  | .none => exact ⟨rfl, Json.utf8Only_obj.mpr (by simp)⟩

theorem fieldsToJson_regular {fields : List (Str × ConfigValue)}
    (h : ∀ entry ∈ fields, entry.2.ordered = true) (hvalid : FieldsValid fields) :
    ∀ entry ∈ fieldsToJson nums fields,
      entry.2.regular = true ∧ Utf8.Text entry.1 ∧ entry.2.Utf8Only := by
  match fields with
  | [] => exact fun _ hentry => absurd hentry List.not_mem_nil
  | (key, value) :: rest =>
      rw [List.forall_mem_cons] at h
      have hvalue := valueToJson_regular h.1 hvalid.1.2
      rw [fieldsToJson, List.forall_mem_cons]
      exact ⟨⟨hvalue.1, hvalid.1.1, hvalue.2⟩, fieldsToJson_regular h.2 hvalid.2⟩

end

/-- The node that comes back of a node whose numbers come back as `f`. -/
def ConfigNode.back (f : UInt32 → UInt32) (node : ConfigNode) : ConfigNode :=
  ⟨backFields f node.fields, ConfigValue.back_ordered f node.ordered⟩

/-- The node with an empty node in the place of no node. -/
def ConfigNode.filled (node : ConfigNode) : ConfigNode := node.back id

theorem ConfigNode.back_again {node : ConfigNode} (h : FieldsValid node.fields) :
    node.back nums.again = node.filled := by
  simp only [back, filled, ConfigValue.backFields_again nums h]

theorem configNodeFromJson_toJson (node : ConfigNode) :
    configNodeFromJson lib nums (configNodeToJson nums node) = some (node.back nums.again) := by
  have hnode := ordered_node.mp node.ordered
  have hread : fieldsFromJson lib nums (fieldsToJson nums node.fields) [] =
      some (backFields nums.again node.fields) :=
    fieldsFromJson_toJson lib nums hnode.1 hnode.2 [] (by simp)
  rw [configNodeToJson, configNodeFromJson]
  split
  · rename_i fields hfields
    rw [hread, Option.some.injEq] at hfields
    subst hfields
    rfl
  · rename_i hfields
    rw [hread] at hfields
    cases hfields

theorem configNodeToJson_regular {node : ConfigNode} (h : FieldsValid node.fields) :
    (configNodeToJson nums node).regular = true ∧ (configNodeToJson nums node).Utf8Only := by
  have hnode : (valueToJson nums (.node node.fields)).regular = true ∧
      (valueToJson nums (.node node.fields)).Utf8Only := valueToJson_regular nums node.ordered h
  exact hnode

end JiuwenCore.Config
