import JiuwenCore.Memory.EntityDecay

/-!
# When an entity expires

A timestamp is written in UTC, and read as a local time: to a host that is ahead of UTC an entity
is older than it is, and to one behind it is younger.
-/

namespace JiuwenCore.EntityDecay

open Config (MemoryConfig)
open HistoryStore (isSpace isSpace_of_digit signed signed_of_digit)
open Json (isDigit)

/-! ## A timestamp -/

/-- A number in so many decimal digits. -/
def inWidth : Nat → Nat → Str
  | 0, _ => []
  | width + 1, n => inWidth width (n / 10) ++ [UInt8.ofNat (48 + n % 10)]

/-- `CURRENT_TIMESTAMP` at an instant. -/
def sqliteTimestamp (instant : Int) : Str :=
  let t := Calendar.utc instant
  inWidth 4 t.year.toNat ++ lit "-" ++ inWidth 2 (t.month + 1).toNat ++ lit "-" ++
    inWidth 2 t.day.toNat ++ lit " " ++ inWidth 2 t.hour.toNat ++ lit ":" ++
    inWidth 2 t.minute.toNat ++ lit ":" ++ inWidth 2 t.second.toNat

example : sqliteTimestamp 1709251199 = lit "2024-02-29 23:59:59" := by decide

@[simp] theorem length_inWidth (width n : Nat) : (inWidth width n).length = width := by
  induction width generalizing n with
  | zero => rfl
  | succ width ih => simp [inWidth, ih]

theorem digit_mod (n : Nat) : (UInt8.ofNat (48 + n % 10)).toNat = 48 + n % 10 :=
  digit_toNat (Nat.mod_lt n (by decide))

theorem inWidth_digits (width n : Nat) : ∀ c ∈ inWidth width n, isDigit c = true := by
  induction width generalizing n with
  | zero => simp [inWidth]
  | succ width ih =>
      intro c hc
      rcases List.mem_append.mp hc with hc | hc
      · exact ih _ c hc
      · obtain rfl := List.mem_singleton.mp hc
        have hlow : (48 : UInt8).toNat = 48 := rfl
        have hhigh : (57 : UInt8).toNat = 57 := rfl
        simp only [isDigit, decide_eq_true_eq, UInt8.le_iff_toNat_le, digit_mod, hlow, hhigh]
        omega

theorem ofDecimal_append (s : Str) (c : UInt8) :
    ofDecimal (s ++ [c]) = (c.toNat - 48) + 10 * ofDecimal s := by
  simp [ofDecimal, Nat.ofDigits_cons]

theorem ofDecimal_inWidth {width n : Nat} (h : n < 10 ^ width) : ofDecimal (inWidth width n) = n := by
  induction width generalizing n with
  | zero =>
      obtain rfl : n = 0 := by simpa using h
      rfl
  | succ width ih =>
      rw [Nat.pow_succ] at h
      rw [inWidth, ofDecimal_append, digit_mod, ih (by omega)]
      omega

/-- A number that is written is read, up to what is no digit. -/
theorem readInt_inWidth {width : Nat} {n : Int} (hwidth : 0 < width) (hmin : 0 ≤ n)
    (hn : n < 10 ^ width) (hmax : n < 2 ^ 31) {rest : Str}
    (hrest : ∀ c ∈ rest.head?, isDigit c = false) :
    readInt (inWidth width n.toNat ++ rest) = some (n, rest) := by
  have hdigits := inWidth_digits width n.toNat
  have hbound : n.toNat < 10 ^ width := by
    zify
    rwa [Int.toNat_of_nonneg hmin]
  have hvalue := ofDecimal_inWidth hbound
  have hne : inWidth width n.toNat ≠ [] := List.ne_nil_of_length_pos (by simpa using hwidth)
  have hsigned : signed ((inWidth width n.toNat ++ rest).dropWhile isSpace) =
      (1, inWidth width n.toNat ++ rest) := by
    obtain ⟨d, more, hcons⟩ := List.exists_cons_of_ne_nil hne
    have hd := hdigits d (hcons ▸ List.mem_cons_self)
    rw [hcons, List.cons_append, List.dropWhile_cons_of_neg (isSpace_of_digit hd),
      signed_of_digit hd]
  obtain ⟨htake, hdrop⟩ := Json.span_digits hdigits hrest
  simp only [readInt, hsigned, htake, hdrop, hvalue, one_mul, Int.toNat_of_nonneg hmin]
  rw [if_pos ⟨hne, by omega, hmax⟩]

/-- A number of two digits. -/
theorem readInt_two {n : Int} (hmin : 0 ≤ n) (hmax : n < 100) {rest : Str}
    (hrest : ∀ c ∈ rest.head?, isDigit c = false) :
    readInt (inWidth 2 n.toNat ++ rest) = some (n, rest) :=
  readInt_inWidth (by decide) hmin (by omega) (by omega) hrest

theorem readChar_cons {c : UInt8} (h : isSpace c = false) (rest : Str) :
    readChar (c :: rest) = some (c, rest) := by
  rw [readChar, List.dropWhile_cons_of_neg (by simp [h])]

theorem readInt_space (s : Str) : readInt (32 :: s) = readInt s := rfl

/-! ## Reading a timestamp -/

/-- A broken-down time as a `std::tm`. -/
def tmOf (t : Calendar.Civil) : Tm := ⟨t.year - 1900, t.month, t.day, t.hour, t.minute, t.second⟩

theorem timegm_tmOf (t : Calendar.Civil) : timegm (tmOf t) = t.instant := by
  simp [timegm, tmOf]

/-- The year of an instant has four digits. -/
def FourDigits (instant : Int) : Prop :=
  0 ≤ (Calendar.utc instant).year ∧ (Calendar.utc instant).year ≤ 9999

instance (instant : Int) : Decidable (FourDigits instant) := inferInstanceAs (Decidable (_ ∧ _))

theorem readTm_sqliteTimestamp {instant : Int} (h : FourDigits instant) :
    let t := Calendar.utc instant
    readTm (sqliteTimestamp instant) =
      some ⟨t.year, t.month + 1, t.day, t.hour, t.minute, t.second⟩ := by
  obtain ⟨hmonth, hday, hhour, hminute, hsecond⟩ := Calendar.utc_shown instant
  obtain ⟨hfirst, hlast⟩ := h
  generalize ht : Calendar.utc instant = t at hmonth hday hhour hminute hsecond hfirst hlast
  have htext : sqliteTimestamp instant =
      inWidth 4 t.year.toNat ++ 45 :: (inWidth 2 (t.month + 1).toNat ++ 45 ::
        (inWidth 2 t.day.toNat ++ 32 :: (inWidth 2 t.hour.toNat ++ 58 ::
          (inWidth 2 t.minute.toNat ++ 58 :: (inWidth 2 t.second.toNat ++ []))))) := by
    simp [sqliteTimestamp, lit, ht]
  have hsep : ∀ {c : UInt8} (rest : Str), isDigit c = false →
      ∀ b ∈ (c :: rest).head?, isDigit b = false := by
    intro c rest hc b hb
    cases hb
    exact hc
  have hdash : ∀ rest, readChar (45 :: rest) = some (45, rest) := readChar_cons rfl
  have hcolon : ∀ rest, readChar (58 :: rest) = some (58, rest) := readChar_cons rfl
  have hyear := fun rest => readInt_inWidth (by decide : 0 < 4) hfirst (by omega) (by omega)
    (hsep (c := 45) rest rfl)
  have hmon := fun rest => readInt_two (n := t.month + 1) (by omega) (by omega)
    (hsep (c := 45) rest rfl)
  have hmday := fun rest => readInt_two (n := t.day) (by omega) (by omega)
    (hsep (c := 32) rest rfl)
  have hhours := fun rest => readInt_two hhour.1 (by omega) (hsep (c := 58) rest rfl)
  have hminutes := fun rest => readInt_two hminute.1 (by omega) (hsep (c := 58) rest rfl)
  have hseconds : readInt (inWidth 2 t.second.toNat ++ []) = some (t.second, []) :=
    readInt_two hsecond.1 (by omega) (by simp)
  simp only [readTm, htext, hyear, hdash, hmon, hmday, readInt_space, hhours, hcolon, hminutes,
    hseconds, Option.bind_eq_bind, Option.pure_def, Option.bind_some]

theorem parse_sqliteTimestamp (zone : Zone) {instant : Int} (h : FourDigits instant) :
    parseSqliteTimestamp zone (sqliteTimestamp instant) =
      instant - zone (tmOf (Calendar.utc instant)) := by
  have hlength : (sqliteTimestamp instant).length = 19 := by
    simp [sqliteTimestamp, lit]
  have htm : (⟨(Calendar.utc instant).year - 1900, (Calendar.utc instant).month + 1 - 1,
      (Calendar.utc instant).day, (Calendar.utc instant).hour, (Calendar.utc instant).minute,
      (Calendar.utc instant).second⟩ : Tm) = tmOf (Calendar.utc instant) := by
    simp [tmOf]
  rw [parseSqliteTimestamp, hlength, readTm_sqliteTimestamp h, if_neg (by decide)]
  simp only
  rw [htm, mktime, timegm_tmOf, Calendar.instant_utc]

/-! ## What is dropped -/

def ttlSeconds (config : MemoryConfig) : Int := config.eventEntityTtlDays.toInt * 86400

/-- An entity that is due is older than the limit also with the offset added, or it is read as one
from before 1970; one that is not due is younger also with the offset. Without a limit none is
due. -/
def OffsetHarmless (config : MemoryConfig) (now updated offset : Int) : Prop :=
  (ttlSeconds config < now - updated →
    0 < config.eventEntityTtlDays ∧
      (ttlSeconds config < now - updated + offset ∨ updated ≤ offset)) ∧
  (now - updated ≤ ttlSeconds config →
    config.eventEntityTtlDays ≤ 0 ∨
      now - updated + offset ≤ ttlSeconds config ∧ offset < updated)

instance (config : MemoryConfig) (now updated offset : Int) :
    Decidable (OffsetHarmless config now updated offset) :=
  inferInstanceAs (Decidable (_ ∧ _))

section Expiry

variable {pkg : MemoryContextPackage} {config : MemoryConfig} {e : MemoryEntity} {updated : Int}

theorem removes_iff (zone : Zone) (now : Int) (hevent : e.entityType ∈ config.eventEntityTypes)
    (hyear : FourDigits updated) (hupdated : e.updatedAt = sqliteTimestamp updated) :
    removes zone now config e = true ↔
      0 < config.eventEntityTtlDays ∧
        (ttlSeconds config < now - updated + zone (tmOf (Calendar.utc updated)) ∨
          updated ≤ zone (tmOf (Calendar.utc updated))) := by
  simp only [removes, isExpired, hevent, hupdated, parse_sqliteTimestamp zone hyear,
    decide_eq_true_eq, true_and, ttlSeconds]
  refine and_congr_right fun _ => ?_
  omega

theorem not_mem_filter_iff (zone : Zone) (now : Int) (he : e ∈ pkg.entities) :
    e ∉ (filterExpiredEventEntities zone now pkg config).1.entities ↔
      removes zone now config e = true := by
  rw [filterExpiredEventEntities_eq]
  simp [withoutRemoved, he]

/-- An event entity is dropped just when it is older than the limit, where the offset of the host
makes no difference. -/
theorem filter_drops_iff (zone : Zone) (now : Int) (he : e ∈ pkg.entities)
    (hevent : e.entityType ∈ config.eventEntityTypes) (hyear : FourDigits updated)
    (hupdated : e.updatedAt = sqliteTimestamp updated) :
    (e ∉ (filterExpiredEventEntities zone now pkg config).1.entities ↔
        ttlSeconds config < now - updated) ↔
      OffsetHarmless config now updated (zone (tmOf (Calendar.utc updated))) := by
  have hkept : ∀ offset, (config.eventEntityTtlDays ≤ 0 ∨
      now - updated + offset ≤ ttlSeconds config ∧ offset < updated) ↔
        ¬ (0 < config.eventEntityTtlDays ∧
          (ttlSeconds config < now - updated + offset ∨ updated ≤ offset)) := by
    intro offset
    rw [not_and_or, not_or, not_lt, not_le, Int32.not_lt]
  rw [not_mem_filter_iff zone now he, removes_iff zone now hevent hyear hupdated, OffsetHarmless,
    hkept, ← not_lt (a := ttlSeconds config), not_imp_not]
  exact iff_def.trans and_comm

/-- On a host in UTC the limit is kept for entities from after the beginning of 1970. -/
theorem offsetHarmless_zero (config : MemoryConfig) (hon : 0 < config.eventEntityTtlDays)
    (now : Int) {updated : Int} (h : 0 < updated) : OffsetHarmless config now updated 0 := by
  constructor
  · intro hdue
    exact ⟨hon, .inl (by omega)⟩
  · intro hyoung
    exact .inr ⟨by omega, h⟩

/-- On any other host some entity is dropped too early or kept too long. -/
theorem offset_harms (config : MemoryConfig) (hon : 0 < config.eventEntityTtlDays) {offset : Int}
    (h : offset ≠ 0) : ∃ now updated, ¬ OffsetHarmless config now updated offset := by
  rcases lt_or_gt_of_ne h with hbehind | hahead
  · refine ⟨ttlSeconds config + 1, 0, fun hharmless => ?_⟩
    obtain ⟨-, hread⟩ := hharmless.1 (by omega)
    omega
  · refine ⟨ttlSeconds config + offset + 1, offset + 1, fun hharmless => ?_⟩
    rcases hharmless.2 (by omega) with hoff | hread
    · exact absurd hon (Int32.not_lt.mpr hoff)
    · omega

end Expiry

def topicOf (updated : Int) : MemoryEntity where
  id := lit "topic.rainstorm"
  entityType := lit "topic"
  name := lit "Rainstorm"
  summary := lit "expected"
  updatedAt := sqliteTimestamp updated

/-- Eight hours ahead of UTC, an entity goes an hour before it is due. -/
theorem filter_drops_early :
    topicOf 1783904400 ∉ (filterExpiredEventEntities (fun _ => 28800) 1784505600
        ⟨[], [topicOf 1783904400], []⟩ {}).1.entities ∧
      ¬ ttlSeconds {} < 1784505600 - 1783904400 := by
  decide

theorem filter_drops_utc :
    topicOf 1783900000 ∉ (filterExpiredEventEntities (fun _ => 0) 1784505600
        ⟨[], [topicOf 1783900000], []⟩ {}).1.entities ↔
      ttlSeconds {} < 1784505600 - 1783900000 :=
  (filter_drops_iff (fun _ => 0) 1784505600 List.mem_cons_self (by decide) (by decide) rfl).mpr
    (by decide)

end JiuwenCore.EntityDecay
