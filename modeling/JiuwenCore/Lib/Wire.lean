import Mathlib.Algebra.Order.Ring.Nat
import Mathlib.Data.List.Basic

/-!
# Fields on the wire

A message is fields one behind the other, of numbers and of bytes, each behind a tag of its own.
Numbers have seven bits to a byte. The reader goes through a message by positions of 64 bits: it
takes what there is where a field is cut off, passes over tags of other kinds, and can be sent
back by a length that takes the position around.
-/

namespace JiuwenCore.Wire

/-! ## Numbers -/

/-- The lowest bits come first, and every byte but the last is marked. -/
@[grind =] def varint : Nat → Nat → List UInt8
  | 0, value => [UInt8.ofNat value]
  | rounds + 1, value =>
      if 0x80 ≤ value then
        UInt8.ofNat ((value &&& 0x7F) ||| 0x80) :: varint rounds (value >>> 7)
      else [UInt8.ofNat value]

/-- The number, and how many bytes were read for it. -/
def readVarint (shift result : Nat) : List UInt8 → Nat × Nat
  | [] => (result, 0)
  | b :: rest =>
      if 64 ≤ shift then (result, 0)
      else
        let result := result ||| ((b &&& 0x7F).toNat <<< shift % 2 ^ 64)
        if b &&& 0x80 = 0 then (result, 1)
        else
          let more := readVarint (shift + 7) result rest
          (more.1, more.2 + 1)

theorem varint_byte {low : Nat} (h : low < 128) :
    (UInt8.ofNat low &&& 0x7F).toNat = low ∧ UInt8.ofNat low &&& 0x80 = 0 ∧
      (UInt8.ofNat (low ||| 0x80) &&& 0x7F).toNat = low ∧
      UInt8.ofNat (low ||| 0x80) &&& 0x80 ≠ 0 := by
  revert low
  decide +kernel

/-- The bits of a byte behind those that were read. -/
theorem or_shifted {result low shift : Nat} (hresult : result < 2 ^ shift)
    (hfits : low * 2 ^ shift < 2 ^ 64) :
    (result ||| (low <<< shift % 2 ^ 64)) = result + low * 2 ^ shift := by
  rw [Nat.shiftLeft_eq, Nat.mod_eq_of_lt hfits, Nat.or_comm, ← Nat.shiftLeft_eq,
    ← Nat.shiftLeft_add_eq_or_of_lt hresult, Nat.shiftLeft_eq, Nat.add_comm]

theorem readVarint_last {value shift result : Nat} (hshift : shift < 64) (hsmall : value < 128)
    (hfits : value * 2 ^ shift < 2 ^ 64) (hresult : result < 2 ^ shift) (rest : List UInt8) :
    readVarint shift result ([UInt8.ofNat value] ++ rest) = (result + value * 2 ^ shift, 1) := by
  obtain ⟨hlow, hmark, -, -⟩ := varint_byte hsmall
  rw [List.singleton_append, readVarint, if_neg (by omega)]
  dsimp only
  rw [if_pos hmark, hlow, or_shifted hresult hfits]

/-- What was written is read again, whatever stands behind it. -/
theorem readVarint_varint {rounds value shift result : Nat} (hshift : shift < 64)
    (hrounds : value < 2 ^ (7 * rounds + 7)) (hfits : value * 2 ^ shift < 2 ^ 64)
    (hresult : result < 2 ^ shift) (rest : List UInt8) :
    readVarint shift result (varint rounds value ++ rest) =
      (result + value * 2 ^ shift, (varint rounds value).length) := by
  induction rounds generalizing value shift result with
  | zero =>
      exact readVarint_last hshift hrounds hfits hresult rest
  | succ rounds ih =>
      rw [varint]
      split
      · rename_i hlarge
        have hmod : value &&& 0x7F = value % 128 := Nat.and_two_pow_sub_one_eq_mod value 7
        have hdiv : value >>> 7 = value / 128 := Nat.shiftRight_eq_div_pow value 7
        have hsplit : value = value % 128 + value / 128 * 128 := (Nat.mod_add_div' value 128).symm
        obtain ⟨-, -, hlow, hmark⟩ := varint_byte (Nat.mod_lt value (by decide : 128 > 0))
        have hpow : 2 ^ (shift + 7) = 128 * 2 ^ shift := by rw [Nat.pow_add, Nat.mul_comm]
        have hparts : value * 2 ^ shift =
            value % 128 * 2 ^ shift + value / 128 * 2 ^ (shift + 7) := by
          rw [hpow, ← Nat.mul_assoc, ← Nat.add_mul, ← hsplit]
        have hresult' : result + value % 128 * 2 ^ shift < 2 ^ (shift + 7) := by
          have hle : value % 128 * 2 ^ shift ≤ 127 * 2 ^ shift :=
            Nat.mul_le_mul_right _ (by omega)
          omega
        have hshift' : shift + 7 < 64 := by
          by_contra hge
          have hpow64 : 2 ^ 64 ≤ 2 ^ (shift + 7) := Nat.pow_le_pow_right (by decide) (by omega)
          have hone : 1 * 2 ^ (shift + 7) ≤ value / 128 * 2 ^ (shift + 7) :=
            Nat.mul_le_mul_right _ (by omega)
          omega
        rw [hmod, hdiv, List.cons_append, readVarint, if_neg (by omega)]
        dsimp only
        rw [if_neg hmark, hlow, or_shifted hresult (by omega)]
        have hrounds' : value / 128 < 2 ^ (7 * rounds + 7) := by
          have hpow' : 2 ^ (7 * (rounds + 1) + 7) = 2 ^ (7 * rounds + 7) * 128 := Nat.pow_add 2 _ 7
          omega
        rw [ih hshift' hrounds' (by omega) hresult', List.length_cons, hparts, Nat.add_assoc]
      · exact readVarint_last hshift (by omega) hfits hresult rest

theorem varint_ne_nil (rounds value : Nat) : varint rounds value ≠ [] := by
  cases rounds with
  | zero => exact List.cons_ne_nil _ _
  | succ rounds =>
      rw [varint]
      split <;> exact List.cons_ne_nil _ _

theorem length_varint_le (rounds value : Nat) : (varint rounds value).length ≤ rounds + 1 := by
  induction rounds generalizing value with
  | zero => exact Nat.le_refl 1
  | succ rounds ih =>
      rw [varint]
      split
      · exact Nat.succ_le_succ (ih _)
      · exact Nat.le_add_left 1 _

/-- Every number of 64 bits, written in ten bytes at most. -/
theorem readVarint_nine {value : Nat} (h : value < 2 ^ 64) (rest : List UInt8) :
    readVarint 0 0 (varint 9 value ++ rest) = (value, (varint 9 value).length) := by
  have hrounds : value < 2 ^ (7 * 9 + 7) := by omega
  rw [readVarint_varint (by decide) hrounds (by omega) (by decide), Nat.pow_zero, Nat.mul_one,
    Nat.zero_add]

theorem readVarint_length (shift result : Nat) (bytes : List UInt8) :
    (readVarint shift result bytes).2 ≤ bytes.length := by
  induction bytes generalizing shift result with
  | nil => exact Nat.le_refl 0
  | cons b rest ih =>
      rw [readVarint]
      split
      · exact Nat.zero_le _
      · dsimp only
        split
        · exact Nat.le_add_left 1 _
        · exact Nat.succ_le_succ (ih _ _)

theorem readVarint_pos {bytes : List UInt8} (h : bytes ≠ []) : 0 < (readVarint 0 0 bytes).2 := by
  cases bytes with
  | nil => exact absurd rfl h
  | cons b rest =>
      rw [readVarint, if_neg (by decide)]
      dsimp only
      split <;> exact Nat.succ_pos _

/-! ## Fields -/

inductive Field where
  | number (id value : Nat)
  | bytes (id : Nat) (data : List UInt8)
  deriving DecidableEq, Repr

def Field.write : Field → List UInt8
  | .number id value => varint 9 (id <<< 3 ||| 0) ++ varint 9 value
  | .bytes id data => varint 9 (id <<< 3 ||| 2) ++ (varint 9 data.length ++ data)

def write (fields : List Field) : List UInt8 := fields.flatMap Field.write

@[simp] theorem write_nil : write [] = [] := rfl

@[simp] theorem write_cons (field : Field) (fields : List Field) :
    write (field :: fields) = field.write ++ write fields := by
  rw [write, List.flatMap_cons, write]

@[simp] theorem write_append (fields more : List Field) :
    write (fields ++ more) = write fields ++ write more := by
  rw [write, List.flatMap_append, write, write]

/-- Fields that can be written: the numbers have 64 bits, the tags 32. -/
def Field.Fits : Field → Prop
  | .number id value => id < 2 ^ 29 ∧ value < 2 ^ 64
  | .bytes id _ => id < 2 ^ 29

/-- A number, and the position behind it. -/
def readNumber (input : List UInt8) (pos : Nat) : Nat × Nat :=
  let read := readVarint 0 0 (input.drop pos)
  (read.1, pos + read.2)

def readDelimited (input : List UInt8) (pos : Nat) : List UInt8 × Nat :=
  let (len, pos) := readNumber input pos
  let len := if input.length < (pos + len) % 2 ^ 64 then input.length - pos else len
  ((input.drop pos).take len, (pos + len) % 2 ^ 64)

/-- A field, if the tag is one of a field, and the position behind it. -/
def readField (input : List UInt8) (pos : Nat) : Option Field × Nat :=
  let (tag, pos) := readNumber input pos
  let id := tag >>> 3 % 2 ^ 32
  if tag &&& 7 = 0 then
    let (value, pos) := readNumber input pos
    (some (.number id value), pos)
  else if tag &&& 7 = 2 then
    let (data, pos) := readDelimited input pos
    (some (.bytes id data), pos)
  else (none, pos)

theorem readNumber_written {input before rest : List UInt8} {value : Nat} (h : value < 2 ^ 64)
    (hinput : input = before ++ (varint 9 value ++ rest)) :
    readNumber input before.length = (value, before.length + (varint 9 value).length) := by
  rw [readNumber, hinput, List.drop_left, readVarint_nine h]

theorem readDelimited_written {input before data rest : List UInt8} (hsize : input.length < 2 ^ 64)
    (hinput : input = before ++ (varint 9 data.length ++ (data ++ rest))) :
    readDelimited input before.length =
      (data, before.length + (varint 9 data.length ++ data).length) := by
  have hlength := congrArg List.length hinput
  simp only [List.length_append] at hlength
  have hfits : data.length < 2 ^ 64 := by omega
  have hdrop : input.drop (before.length + (varint 9 data.length).length) = data ++ rest := by
    rw [hinput, ← List.append_assoc, ← List.length_append, List.drop_left]
  have hmod : (before.length + (varint 9 data.length).length + data.length) % 2 ^ 64 =
      before.length + (varint 9 data.length).length + data.length := Nat.mod_eq_of_lt (by omega)
  rw [readDelimited, readNumber_written hfits hinput]
  dsimp only
  rw [hmod, if_neg (by omega), hdrop, List.take_left, hmod, List.length_append, Nat.add_assoc]

theorem tag_parts {id wire : Nat} (hid : id < 2 ^ 29) (hwire : wire < 8) :
    (id <<< 3 ||| wire) < 2 ^ 64 ∧ (id <<< 3 ||| wire) >>> 3 % 2 ^ 32 = id ∧
      (id <<< 3 ||| wire) &&& 7 = wire := by
  have hsum : (id <<< 3 ||| wire) = id * 8 + wire := by
    rw [← Nat.shiftLeft_add_eq_or_of_lt (show wire < 2 ^ 3 from hwire), Nat.shiftLeft_eq]
  have hand : (id * 8 + wire) &&& 7 = (id * 8 + wire) % 8 := Nat.and_two_pow_sub_one_eq_mod _ 3
  have hshift : (id * 8 + wire) >>> 3 = (id * 8 + wire) / 8 := Nat.shiftRight_eq_div_pow _ 3
  rw [hsum, hand, hshift]
  exact ⟨by omega, by omega, by omega⟩

/-- A field is read where it was written. -/
theorem readField_written {input before rest : List UInt8} {field : Field} (hfits : field.Fits)
    (hsize : input.length < 2 ^ 64) (hinput : input = before ++ (field.write ++ rest)) :
    readField input before.length = (some field, before.length + field.write.length) := by
  cases field with
  | number id value =>
      obtain ⟨htag, hid, hwire⟩ := tag_parts hfits.1 (by decide : 0 < 8)
      rw [Field.write, List.append_assoc] at hinput
      have hvalue : input = (before ++ varint 9 (id <<< 3 ||| 0)) ++ (varint 9 value ++ rest) := by
        rw [hinput, List.append_assoc]
      rw [readField, readNumber_written htag hinput]
      dsimp only
      rw [if_pos hwire, hid, ← List.length_append, readNumber_written hfits.2 hvalue, Field.write,
        List.length_append, List.length_append, Nat.add_assoc]
  | bytes id data =>
      obtain ⟨htag, hid, hwire⟩ := tag_parts hfits (by decide : 2 < 8)
      rw [Field.write, List.append_assoc, List.append_assoc] at hinput
      have hdata : input = (before ++ varint 9 (id <<< 3 ||| 2)) ++
          (varint 9 data.length ++ (data ++ rest)) := by
        rw [hinput, List.append_assoc]
      rw [readField, readNumber_written htag hinput]
      dsimp only
      rw [if_neg (by rw [hwire]; decide), if_pos hwire, hid, ← List.length_append,
        readDelimited_written hsize hdata]
      simp only [Field.write, List.length_append, Nat.add_assoc]

/-! ## Messages -/

section Scan

variable {σ : Type*} (take : σ → Field → Option σ) (input : List UInt8)

/-- The reader from a position on; `none` where it has not come to the end in so many rounds, or
where a field is not taken. -/
def scan : Nat → Nat → σ → Option σ
  | 0, pos, s => if input.length ≤ pos then some s else none
  | rounds + 1, pos, s =>
      if input.length ≤ pos then some s
      else
        match readField input pos with
        | (some field, next) => (take s field).bind fun s => scan rounds next s
        | (none, next) => scan rounds next s

variable {take input}

theorem scan_mono {rounds more : Nat} (hle : rounds ≤ more) {pos : Nat} {s t : σ}
    (h : scan take input rounds pos s = some t) : scan take input more pos s = some t := by
  induction rounds generalizing more pos s with
  | zero =>
      obtain ⟨hend, heq⟩ := Option.ite_none_right_eq_some.mp h
      cases more with
      | zero => exact h
      | succ more =>
          rw [scan, if_pos hend]
          exact heq
  | succ rounds ih =>
      obtain ⟨more, rfl⟩ := Nat.exists_eq_add_of_le' (Nat.lt_of_lt_of_le (Nat.succ_pos _) hle)
      rw [scan] at h ⊢
      split
      · rename_i hend
        rw [if_pos hend] at h
        exact h
      · rename_i hend
        rw [if_neg hend] at h
        split at h
        · obtain ⟨s', hs', hrest⟩ := Option.bind_eq_some_iff.mp h
          rw [hs', Option.bind_some]
          exact ih (Nat.le_of_succ_le_succ hle) hrest
        · exact ih (Nat.le_of_succ_le_succ hle) h

theorem Field.write_ne_nil (field : Field) : field.write ≠ [] := by
  cases field with
  | number id value => exact List.append_ne_nil_of_left_ne_nil (varint_ne_nil _ _) _
  | bytes id data => exact List.append_ne_nil_of_left_ne_nil (varint_ne_nil _ _) _

/-- The reader takes the fields that were written, and goes on behind them. -/
theorem scan_written {fields : List Field} (hfits : ∀ field ∈ fields, field.Fits)
    (hsize : input.length < 2 ^ 64) {before rest : List UInt8}
    (hinput : input = before ++ (write fields ++ rest)) {s t : σ}
    (hfold : fields.foldlM take s = some t) (rounds : Nat) :
    scan take input (fields.length + rounds) before.length s =
      scan take input rounds (before.length + (write fields).length) t := by
  induction fields generalizing before s with
  | nil =>
      cases hfold
      rw [List.length_nil, Nat.zero_add]
      rfl
  | cons field fields ih =>
      obtain ⟨hfield, hfields⟩ := List.forall_mem_cons.mp hfits
      rw [List.foldlM_cons] at hfold
      obtain ⟨s', hs', hmore⟩ := Option.bind_eq_some_iff.mp hfold
      have hfirst : input = before ++ (field.write ++ (write fields ++ rest)) := by
        rw [hinput, write_cons, List.append_assoc]
      have hthen : input = (before ++ field.write) ++ (write fields ++ rest) := by
        rw [hfirst, List.append_assoc]
      have hinside : ¬ input.length ≤ before.length := by
        have hlength := congrArg List.length hfirst
        have hpos := List.length_pos_of_ne_nil field.write_ne_nil
        simp only [List.length_append] at hlength
        omega
      rw [List.length_cons, Nat.add_right_comm, scan, if_neg hinside,
        readField_written hfield hsize hfirst]
      dsimp only
      rw [hs', Option.bind_some, ← List.length_append, ih hfields hthen hmore, write_cons]
      rw [List.length_append, List.length_append, Nat.add_assoc]

/-- The fields that were written are what is read. -/
theorem scan_write {fields : List Field} (hfits : ∀ field ∈ fields, field.Fits)
    (hsize : (write fields).length < 2 ^ 64) {s t : σ} (hfold : fields.foldlM take s = some t)
    {rounds : Nat} (hrounds : fields.length ≤ rounds) :
    scan take (write fields) rounds 0 s = some t := by
  obtain ⟨more, rfl⟩ := Nat.exists_eq_add_of_le hrounds
  have hinput : write fields = [] ++ (write fields ++ []) := by simp
  have hscan := scan_written hfits hsize hinput hfold more
  rw [List.length_nil, Nat.zero_add] at hscan
  rw [hscan]
  cases more <;> exact if_pos (Nat.le_refl _)

theorem length_le_of_mem {field : Field} {fields : List Field} (h : field ∈ fields) :
    field.write.length ≤ (write fields).length := by
  obtain ⟨before, after, rfl⟩ := List.append_of_mem h
  rw [write_append, write_cons, List.length_append, List.length_append]
  omega

theorem Field.length_data_le (id : Nat) (data : List UInt8) :
    data.length ≤ (Field.bytes id data).write.length := by
  rw [Field.write, List.length_append, List.length_append]
  omega

theorem length_le_write (fields : List Field) : fields.length ≤ (write fields).length := by
  induction fields with
  | nil => exact Nat.le_refl 0
  | cons field fields ih =>
      have hpos := List.length_pos_of_ne_nil field.write_ne_nil
      rw [write_cons, List.length_cons, List.length_append]
      omega

/-! ## Coming to the end -/

/-- A length that takes the position around. -/
def Wraps (input : List UInt8) (pos : Nat) : Prop :=
  (readNumber input pos).1 &&& 7 = 2 ∧
    2 ^ 64 ≤ (readNumber input (readNumber input pos).2).2 +
      (readNumber input (readNumber input pos).2).1

/-- The positions at which the reader stands in front of a tag. -/
inductive Stands (input : List UInt8) : Nat → Prop
  | start : Stands input 0
  | next {pos : Nat} : Stands input pos → pos < input.length →
      Stands input (readField input pos).2

/-- The reader meets no such length. -/
def Steady (input : List UInt8) : Prop :=
  ∀ pos, Stands input pos → pos < input.length → ¬ Wraps input pos

theorem readNumber_bounds {input : List UInt8} {pos : Nat} (h : pos ≤ input.length) :
    pos ≤ (readNumber input pos).2 ∧ (readNumber input pos).2 ≤ input.length ∧
      (pos < input.length → pos < (readNumber input pos).2) := by
  have hread := readVarint_length 0 0 (input.drop pos)
  rw [List.length_drop] at hread
  refine ⟨Nat.le_add_right _ _, ?_, fun hlt => ?_⟩
  · rw [readNumber]
    dsimp only
    omega
  · have hpos := readVarint_pos (show input.drop pos ≠ [] by simpa using hlt)
    rw [readNumber]
    dsimp only
    omega

/-- Without such a length the reader goes forward. -/
theorem readField_advances {input : List UInt8} (hsize : input.length < 2 ^ 64) {pos : Nat}
    (hpos : pos < input.length) (h : ¬ Wraps input pos) :
    pos < (readField input pos).2 ∧ (readField input pos).2 ≤ input.length := by
  obtain ⟨-, htag, hforward⟩ := readNumber_bounds (Nat.le_of_lt hpos)
  have hlt := hforward hpos
  obtain ⟨hvalue, hend, -⟩ := readNumber_bounds htag
  rw [readField]
  dsimp only
  split
  · exact ⟨by omega, hend⟩
  · split
    · rename_i hwire
      have hsteady : (readNumber input (readNumber input pos).2).2 +
          (readNumber input (readNumber input pos).2).1 < 2 ^ 64 := by
        by_contra hge
        exact h ⟨hwire, by omega⟩
      rw [readDelimited]
      dsimp only
      split
      · rw [Nat.mod_eq_of_lt (by omega)]
        exact ⟨by omega, by omega⟩
      · rename_i hshort
        rw [Nat.mod_eq_of_lt hsteady] at hshort ⊢
        exact ⟨by omega, by omega⟩
    · exact ⟨hlt, htag⟩

/-- The reader comes to the end where no length takes it around and every field is taken. -/
theorem scan_ends (hsize : input.length < 2 ^ 64) (hsteady : Steady input)
    (htake : ∀ pos, Stands input pos → pos < input.length → ∀ field,
      (readField input pos).1 = some field → ∀ s, (take s field).isSome) (s : σ) :
    (scan take input input.length 0 s).isSome := by
  have hfrom : ∀ rounds pos s, Stands input pos → input.length ≤ pos + rounds →
      (scan take input rounds pos s).isSome := by
    intro rounds
    induction rounds with
    | zero =>
        intro pos s _ henough
        rw [scan, if_pos (by omega)]
        rfl
    | succ rounds ih =>
        intro pos s hstands henough
        rw [scan]
        split
        · rfl
        · rename_i hinside
          have hlt : pos < input.length := Nat.lt_of_not_le hinside
          have hadvance := (readField_advances hsize hlt (hsteady pos hstands hlt)).1
          have hnext := hstands.next hlt
          split
          · rename_i field next hread
            have hsome := htake pos hstands hlt field (by rw [hread]) s
            rw [hread] at hadvance hnext
            obtain ⟨s', hs'⟩ := Option.isSome_iff_exists.mp hsome
            rw [hs', Option.bind_some]
            exact ih next s' hnext (by omega)
          · rename_i next hread
            rw [hread] at hadvance hnext
            exact ih next s hnext (by omega)
  exact hfrom _ 0 s .start (by omega)

theorem length_data_le_of_read {input data : List UInt8} {pos id : Nat}
    (h : (readField input pos).1 = some (.bytes id data)) : data.length ≤ input.length := by
  rw [readField] at h
  dsimp only at h
  split at h
  · cases h
  · split at h
    · cases h
      rw [readDelimited, List.length_take, List.length_drop]
      omega
    · cases h

/-- A length that takes the position back to the tag in front of it. -/
theorem readField_back {input before rest : List UInt8} {id len : Nat} (hid : id < 2 ^ 29)
    (hsize : input.length < 2 ^ 64) (hlen : len < 2 ^ 64)
    (hinput : input = before ++ (varint 9 (id <<< 3 ||| 2) ++ (varint 9 len ++ rest)))
    (hback : (varint 9 (id <<< 3 ||| 2)).length + (varint 9 len).length + len = 2 ^ 64) :
    (readField input before.length).2 = before.length := by
  obtain ⟨htag, -, hwire⟩ := tag_parts hid (by decide : 2 < 8)
  have hlength := congrArg List.length hinput
  simp only [List.length_append] at hlength
  have hnumber : input = (before ++ varint 9 (id <<< 3 ||| 2)) ++ (varint 9 len ++ rest) := by
    rw [hinput, List.append_assoc]
  rw [readField, readNumber_written htag hinput]
  dsimp only
  rw [if_neg (by rw [hwire]; decide), if_pos hwire, ← List.length_append, readDelimited,
    readNumber_written hlen hnumber]
  dsimp only
  rw [List.length_append]
  have haround : (before.length + (varint 9 (id <<< 3 ||| 2)).length + (varint 9 len).length +
      len) % 2 ^ 64 = before.length := by omega
  rw [haround, if_neg (by omega), haround]

/-- A field that sends the reader back to itself is never passed. -/
theorem scan_returning {pos : Nat} (hinside : pos < input.length)
    (hback : (readField input pos).2 = pos) (rounds : Nat) (s : σ) :
    scan take input rounds pos s = none := by
  induction rounds generalizing s with
  | zero => rw [scan, if_neg (Nat.not_le.mpr hinside)]
  | succ rounds ih =>
      rw [scan, if_neg (Nat.not_le.mpr hinside)]
      split
      · rename_i field next hread
        rw [hread] at hback
        subst hback
        cases take s field with
        | none => rfl
        | some s' => exact ih s'
      · rename_i next hread
        rw [hread] at hback
        subst hback
        exact ih s

/-- Neither is it behind fields that were written. -/
theorem scan_stuck {fields : List Field} (hfits : ∀ field ∈ fields, field.Fits)
    (hsize : input.length < 2 ^ 64) {before rest : List UInt8}
    (hinput : input = before ++ (write fields ++ rest)) (hrest : rest ≠ [])
    (hback : (readField input (before ++ write fields).length).2 = (before ++ write fields).length)
    (rounds : Nat) (s : σ) : scan take input rounds before.length s = none := by
  have hlength := congrArg List.length hinput
  have hpos := List.length_pos_of_ne_nil hrest
  simp only [List.length_append] at hlength
  induction fields generalizing before rounds s with
  | nil =>
      rw [write_nil, List.append_nil] at hback
      exact scan_returning (by omega) hback rounds s
  | cons field fields ih =>
      obtain ⟨hfield, hfields⟩ := List.forall_mem_cons.mp hfits
      have hfirst : input = before ++ (field.write ++ (write fields ++ rest)) := by
        rw [hinput, write_cons, List.append_assoc]
      have hthen : input = (before ++ field.write) ++ (write fields ++ rest) := by
        rw [hfirst, List.append_assoc]
      rw [write_cons, ← List.append_assoc] at hback
      rw [write_cons, List.length_append] at hlength
      cases rounds with
      | zero => rw [scan, if_neg (by omega)]
      | succ rounds =>
          rw [scan, if_neg (by omega), readField_written hfield hsize hfirst]
          dsimp only
          cases take s field with
          | none => rfl
          | some s' =>
              rw [Option.bind_some, ← List.length_append]
              exact ih hfields hthen hback rounds s' (by rw [List.length_append]; omega)

end Scan

end JiuwenCore.Wire
