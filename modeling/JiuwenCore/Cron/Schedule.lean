import JiuwenCore.Core.HistoryStore
import JiuwenCore.Lib.Calendar
import JiuwenCore.Lib.LineFeed
import JiuwenCore.Lib.Words
import Mathlib.Algebra.Ring.Divisibility.Basic
import Mathlib.Algebra.Ring.Int.Defs
import Mathlib.Order.Bounds.Basic

/-!
# Cron expressions

An expression has five fields, for the minute, the hour, the day of the month, the month and the
day of the week, all in UTC. The next time of a job is found by going through the minutes of a
year.
-/

namespace JiuwenCore.CronWatcher

open Calendar (Civil utc weekday)
open HistoryStore (stoi isSpace)
open LineFeed (getLines)

/-! ## Matching -/

/-- A `std::tm` in UTC. -/
structure Tm extends Civil where
  wday : Int
  deriving DecidableEq, Repr

def gmtime (time : Int) : Tm := { utc time with wday := weekday time }

/-- The loop over the values of a step. -/
def matchesStep (value step maxVal : Int) : (fuel : Nat) → Int → Bool
  | 0, _ => false
  | fuel + 1, v =>
      if v ≤ maxVal then
        if v = value then true else matchesStep value step maxVal fuel (v + step)
      else false

def isWildcard (field : Str) : Bool := field = lit "*" ∨ field = lit "?"

/-- `MatchesField` for a field without commas, `none` where it throws. -/
def matchesPart (field : Str) (value minVal maxVal : Int) : Option Bool :=
  if isWildcard field then some true
  else if 45 ∈ field then
    (stoi (field.takeWhile (· ≠ 45))).bind fun start =>
      (stoi ((field.dropWhile (· ≠ 45)).drop 1)).map fun stop =>
        decide (start ≤ value ∧ value ≤ stop)
  else if 47 ∈ field then
    let base := field.takeWhile (· ≠ 47)
    (stoi ((field.dropWhile (· ≠ 47)).drop 1)).bind fun step =>
      if step ≤ 0 then some false
      else
        (if base = lit "*" then some minVal else stoi base).map fun start =>
          matchesStep value step maxVal (maxVal + 1 - start).toNat start
  else (stoi field).map fun target => decide (value = target)

/-- The loop over the parts of a field, none of which has a comma. -/
def matchesParts (value minVal maxVal : Int) : List Str → Option Bool
  | [] => some false
  | part :: rest =>
      (matchesPart part value minVal maxVal).bind fun matched =>
        if matched then some true else matchesParts value minVal maxVal rest

def matchesField (field : Str) (value minVal maxVal : Int) : Option Bool :=
  if 44 ∈ field then matchesParts value minVal maxVal (getLines 44 field)
  else matchesPart field value minVal maxVal

/-- `&&`, where the second operand may throw. -/
def andThen (a b : Option Bool) : Option Bool := a.bind fun x => if x then b else some false

structure Fields where
  minStr : Str
  hourStr : Str
  dayStr : Str
  monthStr : Str
  weekdayStr : Str

/-- The first five words of an expression. -/
def readFields (cronExpr : Str) : Option Fields :=
  match Words.words isSpace cronExpr with
  | minStr :: hourStr :: dayStr :: monthStr :: weekdayStr :: _ =>
      some ⟨minStr, hourStr, dayStr, monthStr, weekdayStr⟩
  | _ => none

/-- Whether a job is fired at a time, with both days. -/
def matchesCronExpression (cronExpr : Str) (tm : Tm) : Option Bool :=
  match readFields cronExpr with
  | none => some false
  | some f =>
      andThen (matchesField f.minStr tm.minute 0 59)
        (andThen (matchesField f.hourStr tm.hour 0 23)
          (andThen (matchesField f.dayStr tm.day 1 31)
            (andThen (matchesField f.monthStr (tm.month + 1) 1 12)
              (matchesField f.weekdayStr tm.wday 0 6))))

/-! ## The next time -/

/-- `dayMatches` of `CalculateNextFire`: one of the two days is enough when both are given. -/
def Fields.dayMatches (f : Fields) (tm : Tm) : Option Bool :=
  if isWildcard f.dayStr ∧ isWildcard f.weekdayStr then some true
  else if isWildcard f.dayStr then matchesField f.weekdayStr tm.wday 0 6
  else if isWildcard f.weekdayStr then matchesField f.dayStr tm.day 1 31
  else
    (matchesField f.dayStr tm.day 1 31).bind fun domMatches =>
      (matchesField f.weekdayStr tm.wday 0 6).map fun dowMatches => domMatches || dowMatches

/-- The loop over the minutes. -/
def nextFireFrom (f : Fields) (afterTime : Int) : (n : Nat) → Civil → Option Int
  | 0, _ => some (afterTime + 60)
  | n + 1, t =>
      let currentTime := t.instant
      if currentTime = -1 then some (afterTime + 60)
      else
        let tm := gmtime currentTime
        (f.dayMatches tm).bind fun dayMatches =>
          (andThen (matchesField f.minStr tm.minute 0 59)
            (andThen (matchesField f.hourStr tm.hour 0 23)
              (andThen (some dayMatches) (matchesField f.monthStr (tm.month + 1) 1 12)))).bind
            fun found =>
              if found then some currentTime
              else nextFireFrom f afterTime n { tm.toCivil with minute := tm.minute + 1 }

def calculateNextFire (cronExpr : Str) (afterTime : Int) : Option Int :=
  match readFields cronExpr with
  | none => some (afterTime + 60)
  | some f =>
      let tm := utc afterTime
      nextFireFrom f afterTime 525600 { tm with second := 0, minute := tm.minute + 1 }

/-! ## What an expression means -/

/-- The numbers that can be added to a minute within an `int`. -/
abbrev Number := Fin (2 ^ 31 - 60)

inductive Part where
  | star
  | question
  | one (n : Number)
  | range (first last : Number)
  /-- Every so many, from a number on or from the least value. -/
  | every (start : Option Number) (step : Number)
  deriving DecidableEq, Repr

def Part.text : Part → Str
  | star => lit "*"
  | question => lit "?"
  | one n => toDecimal n
  | range first last => toDecimal first ++ 45 :: toDecimal last
  | every start step => start.elim (lit "*") (fun n => toDecimal n) ++ 47 :: toDecimal step

def Part.Holds (value minVal maxVal : Int) : Part → Prop
  | star | question => True
  | one n => value = n
  | range first last => first ≤ value ∧ value ≤ last
  | every start step =>
      let start : Int := start.elim minVal fun n => n
      0 < (step : Int) ∧ start ≤ value ∧ value ≤ maxVal ∧ (step : Int) ∣ value - start

instance (value minVal maxVal : Int) : (p : Part) → Decidable (p.Holds value minVal maxVal)
  | .star | .question => inferInstanceAs (Decidable True)
  | .one _ => inferInstanceAs (Decidable (_ = _))
  | .range _ _ | .every _ _ => inferInstanceAs (Decidable (_ ∧ _))

/-- A field is one part, with others in front of it. -/
structure Field where
  front : List Part := []
  last : Part
  deriving DecidableEq, Repr

namespace Field

def parts (field : Field) : List Part := field.front ++ [field.last]

def text (field : Field) : Str := LineFeed.unlines 44 (field.front.map Part.text) ++ field.last.text

def Holds (value minVal maxVal : Int) (field : Field) : Prop :=
  ∃ p ∈ field.parts, p.Holds value minVal maxVal

instance (value minVal maxVal : Int) (field : Field) :
    Decidable (field.Holds value minVal maxVal) :=
  inferInstanceAs (Decidable (∃ p ∈ _, _))

end Field

structure Expression where
  minute : Field
  hour : Field
  day : Field
  month : Field
  weekday : Field
  deriving DecidableEq, Repr

namespace Expression

def fields (e : Expression) : List Field := [e.minute, e.hour, e.day, e.month, e.weekday]

def text (e : Expression) : Str :=
  e.minute.text ++ 32 :: (e.hour.text ++ 32 :: (e.day.text ++ 32 :: (e.month.text ++ 32 ::
    e.weekday.text)))

/-- The clock and the month agree with a time. -/
def TimeHolds (e : Expression) (tm : Tm) : Prop :=
  e.minute.Holds tm.minute 0 59 ∧ e.hour.Holds tm.hour 0 23 ∧ e.month.Holds (tm.month + 1) 1 12

/-- The day is one of the job: with both days given one of them is enough. -/
def DayHolds (e : Expression) (tm : Tm) : Prop :=
  if isWildcard e.day.text ∨ isWildcard e.weekday.text then
    e.day.Holds tm.day 1 31 ∧ e.weekday.Holds tm.wday 0 6
  else e.day.Holds tm.day 1 31 ∨ e.weekday.Holds tm.wday 0 6

/-- A job is due at a time. -/
def Due (e : Expression) (time : Int) : Prop :=
  e.TimeHolds (gmtime time) ∧ e.DayHolds (gmtime time)

/-- A job is fired at a time, which takes both days. -/
def Fires (e : Expression) (time : Int) : Prop :=
  e.TimeHolds (gmtime time) ∧
    e.day.Holds (gmtime time).day 1 31 ∧ e.weekday.Holds (gmtime time).wday 0 6

instance (e : Expression) (tm : Tm) : Decidable (e.TimeHolds tm) :=
  inferInstanceAs (Decidable (_ ∧ _))

instance (e : Expression) (tm : Tm) : Decidable (e.DayHolds tm) :=
  inferInstanceAs (Decidable (if isWildcard e.day.text ∨ isWildcard e.weekday.text then
    e.day.Holds tm.day 1 31 ∧ e.weekday.Holds tm.wday 0 6
  else e.day.Holds tm.day 1 31 ∨ e.weekday.Holds tm.wday 0 6))

instance (e : Expression) (time : Int) : Decidable (e.Due time) :=
  inferInstanceAs (Decidable (_ ∧ _))

instance (e : Expression) (time : Int) : Decidable (e.Fires time) :=
  inferInstanceAs (Decidable (_ ∧ _))

end Expression

/-! ## Fields -/

theorem stoi_toDecimal (n : Number) : stoi (toDecimal n) = some (n : Int) := by
  have hprint : Json.printInt (n : Int) = toDecimal n := by
    rw [Json.printInt, if_neg (by omega), Int.natAbs_natCast]
  rw [← hprint]
  exact HistoryStore.stoi_printInt (by omega) (by omega)

/-- What a number is written with. -/
theorem not_mem_toDecimal {c : UInt8} (h : Json.isDigit c = false) (n : Nat) : c ∉ toDecimal n := by
  intro hmem
  rw [Json.toDecimal_digits n c hmem] at h
  cases h

theorem matchesStep_eq {step : Int} (hstep : 0 < step) (value maxVal : Int) {fuel : Nat} {v : Int}
    (hfuel : (maxVal + 1 - v).toNat ≤ fuel) :
    matchesStep value step maxVal fuel v =
      decide (v ≤ value ∧ value ≤ maxVal ∧ step ∣ value - v) := by
  induction fuel generalizing v with
  | zero =>
      rw [matchesStep]
      exact (decide_eq_false (by omega)).symm
  | succ fuel ih =>
      rw [matchesStep]
      split
      · split
        · rename_i hle heq
          exact (decide_eq_true ⟨heq.le, heq ▸ hle, by simp [heq]⟩).symm
        · rename_i hle hne
          rw [ih (by omega)]
          have hdvd : step ∣ value - (v + step) ↔ step ∣ value - v := by
            rw [← Int.sub_sub]
            exact dvd_sub_self_right
          refine decide_eq_decide.mpr ⟨fun h => ⟨by omega, h.2.1, hdvd.mp h.2.2⟩, fun h => ?_⟩
          have hle := Int.le_of_dvd (by omega) h.2.2
          exact ⟨by omega, h.2.1, hdvd.mpr h.2.2⟩
      · exact (decide_eq_false (by omega)).symm

/-- No part has a comma or white space, and none is empty. -/
theorem part_text (p : Part) : p.text ≠ [] ∧ ∀ c ∈ p.text, c ≠ 44 ∧ isSpace c = false := by
  have hdigits : ∀ n : Nat, ∀ c ∈ toDecimal n, c ≠ 44 ∧ isSpace c = false := by
    intro n c hc
    have hdigit := Json.toDecimal_digits n c hc
    refine ⟨?_, Bool.eq_false_iff.mpr (HistoryStore.isSpace_of_digit hdigit)⟩
    rintro rfl
    cases hdigit
  cases p with
  | star => exact ⟨by decide, by decide⟩
  | question => exact ⟨by decide, by decide⟩
  | one n => exact ⟨Json.toDecimal_ne_nil n, hdigits n⟩
  | range first last =>
      refine ⟨by simp [Part.text], fun c hc => ?_⟩
      rcases List.mem_append.mp hc with hc | hc
      · exact hdigits first c hc
      · rcases List.mem_cons.mp hc with rfl | hc
        · decide
        · exact hdigits last c hc
  | every start step =>
      refine ⟨by simp [Part.text], fun c hc => ?_⟩
      rcases List.mem_append.mp hc with hc | hc
      · cases start with
        | none =>
            obtain rfl := List.mem_singleton.mp hc
            decide
        | some n => exact hdigits n c hc
      · rcases List.mem_cons.mp hc with rfl | hc
        · decide
        · exact hdigits step c hc

/-- A text with a byte that is no star and no question mark is no wildcard. -/
theorem isWildcard_eq_false {field : Str} {c : UInt8} (h : c ∈ field)
    (hc : c ≠ 42 ∧ c ≠ 63) : isWildcard field = false := by
  refine decide_eq_false ?_
  rintro (rfl | rfl)
  · exact hc.1 (List.mem_singleton.mp h)
  · exact hc.2 (List.mem_singleton.mp h)

theorem isWildcard_toDecimal (n : Nat) : isWildcard (toDecimal n) = false := by
  obtain ⟨c, digits, hn, hdigit⟩ := HistoryStore.toDecimal_cons n
  refine isWildcard_eq_false (c := c) (by simp [hn]) ⟨?_, ?_⟩
  · rintro rfl
    cases hdigit
  · rintro rfl
    cases hdigit

/-- A text is cut at the first byte that ends its front. -/
theorem cut_at {front : Str} {c : UInt8} (h : c ∉ front) (rest : Str) :
    (front ++ c :: rest).takeWhile (· ≠ c) = front ∧
      ((front ++ c :: rest).dropWhile (· ≠ c)).drop 1 = rest := by
  have hall : ∀ b ∈ front, decide (b ≠ c) = true := by
    intro b hb
    exact decide_eq_true fun heq => h (heq ▸ hb)
  rw [List.takeWhile_append_of_pos hall, List.dropWhile_append_of_pos hall]
  simp

theorem matchesPart_text (p : Part) (value minVal maxVal : Int) :
    matchesPart p.text value minVal maxVal = some (decide (p.Holds value minVal maxVal)) := by
  have hneg : ∀ {c : UInt8}, Json.isDigit c = false → ∀ n : Number, c ∉ toDecimal n :=
    fun h n => not_mem_toDecimal h n
  cases p with
  | star => rfl
  | question => rfl
  | one n =>
      rw [Part.text, matchesPart, isWildcard_toDecimal, if_neg Bool.false_ne_true,
        if_neg (hneg (by decide) n), if_neg (hneg (by decide) n), stoi_toDecimal]
      rfl
  | range first last =>
      have hdash : (45 : UInt8) ∈ toDecimal first ++ 45 :: toDecimal last := by simp
      obtain ⟨hfirst, hlast⟩ := cut_at (hneg (c := 45) (by decide) first) (toDecimal last)
      rw [Part.text, matchesPart, isWildcard_eq_false hdash (by decide), if_neg Bool.false_ne_true,
        if_pos hdash, hfirst, hlast, stoi_toDecimal, stoi_toDecimal]
      rfl
  | every start step =>
      have hbase : ∀ c ∈ start.elim (lit "*") (fun n => toDecimal n), c ≠ 45 ∧ c ≠ 47 := by
        cases start with
        | none => decide
        | some n =>
            intro c hc
            refine ⟨?_, ?_⟩
            · rintro rfl
              exact hneg (by decide) n hc
            · rintro rfl
              exact hneg (by decide) n hc
      have hstart : (if start.elim (lit "*") (fun n => toDecimal n) = lit "*" then some minVal
          else stoi (start.elim (lit "*") fun n => toDecimal n)) =
            some (start.elim minVal fun n => n) := by
        cases start with
        | none => rfl
        | some n =>
            have hstar : toDecimal n ≠ lit "*" := by
              intro heq
              have hwild := isWildcard_toDecimal n
              rw [heq] at hwild
              cases hwild
            rw [Option.elim_some, if_neg hstar, stoi_toDecimal]
            rfl
      rw [Part.text]
      generalize start.elim (lit "*") (fun n => toDecimal n) = base at hbase hstart
      have hslash : (47 : UInt8) ∈ base ++ 47 :: toDecimal step := by simp
      have hdash : (45 : UInt8) ∉ base ++ 47 :: toDecimal step := by
        intro hmem
        rcases List.mem_append.mp hmem with hmem | hmem
        · exact (hbase 45 hmem).1 rfl
        · rcases List.mem_cons.mp hmem with heq | hmem
          · cases heq
          · exact hneg (by decide) step hmem
      obtain ⟨hfirst, hlast⟩ := cut_at (fun hmem => (hbase 47 hmem).2 rfl) (toDecimal step)
      rw [matchesPart, isWildcard_eq_false hslash (by decide), if_neg Bool.false_ne_true,
        if_neg hdash, if_pos hslash, hfirst, hlast, stoi_toDecimal, Option.bind_some, hstart]
      by_cases hstep : 0 < (step : Int)
      · rw [if_neg (not_le.mpr hstep), Option.map_some, matchesStep_eq hstep _ _ le_rfl]
        simp only [Part.Holds, hstep, true_and]
      · rw [if_pos (not_lt.mp hstep)]
        exact congrArg some (decide_eq_false fun h => hstep h.1).symm

theorem matchesParts_text (parts : List Part) (value minVal maxVal : Int) :
    matchesParts value minVal maxVal (parts.map Part.text) =
      some (decide (∃ p ∈ parts, p.Holds value minVal maxVal)) := by
  induction parts with
  | nil => rfl
  | cons p parts ih =>
      rw [List.map_cons, matchesParts, matchesPart_text, Option.bind_some, ih]
      by_cases hp : p.Holds value minVal maxVal
      · rw [decide_eq_true hp, if_pos rfl]
        exact congrArg some (decide_eq_true ⟨p, List.mem_cons_self, hp⟩).symm
      · rw [decide_eq_false hp, if_neg Bool.false_ne_true]
        simp [hp]

/-- The parts of a field are found between its commas. -/
theorem getLines_text (field : Field) : getLines 44 field.text = field.parts.map Part.text := by
  have hfront : ∀ line ∈ field.front.map Part.text, (44 : UInt8) ∉ line := by
    intro line hline hmem
    obtain ⟨p, -, rfl⟩ := List.mem_map.mp hline
    exact ((part_text p).2 44 hmem).1 rfl
  have hlast : (44 : UInt8) ∉ field.last.text := fun hmem => ((part_text _).2 44 hmem).1 rfl
  have hrest : LineFeed.remainder 44 field.text = field.last.text := by
    rw [Field.text, LineFeed.remainder_append, LineFeed.remainder_unlines, List.nil_append]
    exact LineFeed.remainder_of_lines_eq_nil 44 (LineFeed.lines_eq_nil 44 hlast)
  rw [getLines, hrest, if_neg (part_text field.last).1, Field.text,
    LineFeed.lines_unlines_append 44 hfront, LineFeed.lines_eq_nil 44 hlast, List.append_nil,
    Field.parts, List.map_append]
  rfl

/-- A field that is written from its parts never throws, and matches where one of them holds. -/
theorem matchesField_text (field : Field) (value minVal maxVal : Int) :
    matchesField field.text value minVal maxVal =
      some (decide (field.Holds value minVal maxVal)) := by
  rw [matchesField]
  split
  · rw [getLines_text, matchesParts_text]
    rfl
  · rename_i hcomma
    cases hfront : field.front with
    | nil =>
        rw [Field.text, hfront]
        simp [LineFeed.unlines, matchesPart_text, Field.Holds, Field.parts, hfront]
    | cons p front =>
        refine absurd ?_ hcomma
        rw [Field.text, hfront]
        simp

theorem field_text (field : Field) :
    field.text ≠ [] ∧ ∀ c ∈ field.text, isSpace c = false := by
  refine ⟨?_, fun c hc => ?_⟩
  · rw [Field.text]
    exact fun hnil => (part_text field.last).1 (List.append_eq_nil_iff.mp hnil).2
  · rcases List.mem_append.mp hc with hc | hc
    · obtain ⟨line, hline, hc⟩ := List.mem_flatMap.mp hc
      obtain ⟨p, -, rfl⟩ := List.mem_map.mp hline
      rcases List.mem_append.mp hc with hc | hc
      · exact ((part_text p).2 c hc).2
      · rw [List.mem_singleton.mp hc]
        decide
    · exact ((part_text field.last).2 c hc).2

/-! ## Expressions -/

theorem readFields_text (e : Expression) :
    readFields e.text =
      some ⟨e.minute.text, e.hour.text, e.day.text, e.month.text, e.weekday.text⟩ := by
  have hword : ∀ field : Field, Words.words isSpace field.text = [field.text] := by
    intro field
    rw [Words.words_single (field_text field).2, if_neg (field_text field).1]
  have hspace : isSpace 32 = true := by decide
  rw [readFields, Expression.text, Words.words_append hspace, Words.words_append hspace,
    Words.words_append hspace, Words.words_append hspace, hword, hword, hword, hword, hword]
  rfl

theorem andThen_decide (p q : Prop) [Decidable p] [Decidable q] :
    andThen (some (decide p)) (some (decide q)) = some (decide (p ∧ q)) := by
  by_cases h : p
  · simp [andThen, h]
  · simp [andThen, h]

/-- A job that is due is fired at once exactly when both of its days agree. -/
theorem matchesCronExpression_text (e : Expression) (time : Int) :
    matchesCronExpression e.text (gmtime time) = some (decide (e.Fires time)) := by
  rw [matchesCronExpression, readFields_text]
  simp only [matchesField_text, andThen_decide, Expression.Fires, Expression.TimeHolds]
  exact congrArg some (decide_eq_decide.mpr (by tauto))

theorem holds_of_wildcard {field : Field} (h : isWildcard field.text = true)
    (value minVal maxVal : Int) : field.Holds value minVal maxVal := by
  have hmatches := matchesField_text field value minVal maxVal
  have hcomma : (44 : UInt8) ∉ field.text := by
    intro hmem
    rw [isWildcard_eq_false hmem (by decide)] at h
    cases h
  rw [matchesField, if_neg hcomma, matchesPart, if_pos h] at hmatches
  exact of_decide_eq_true (Option.some.inj hmatches).symm

theorem dayMatches_text (e : Expression) (tm : Tm) :
    Fields.dayMatches ⟨e.minute.text, e.hour.text, e.day.text, e.month.text, e.weekday.text⟩ tm =
      some (decide (e.DayHolds tm)) := by
  simp only [Fields.dayMatches, Expression.DayHolds]
  by_cases hday : isWildcard e.day.text = true
  · have hdayHolds := holds_of_wildcard hday tm.day 1 31
    by_cases hweekday : isWildcard e.weekday.text = true
    · have hweekdayHolds := holds_of_wildcard hweekday tm.wday 0 6
      simp [hday, hweekday, hdayHolds, hweekdayHolds]
    · simp [hday, hweekday, matchesField_text, hdayHolds]
  · by_cases hweekday : isWildcard e.weekday.text = true
    · have hweekdayHolds := holds_of_wildcard hweekday tm.wday 0 6
      simp [hday, hweekday, matchesField_text, hweekdayHolds]
    · simp [hday, hweekday, matchesField_text, Bool.decide_or]

/-! ## The minutes of a year -/

theorem instant_addMinute (t : Civil) :
    ({ t with minute := t.minute + 1 } : Civil).instant = t.instant + 60 := by
  simp only [Civil.instant]
  omega

/-- The search begins at the first whole minute after a time. -/
theorem instant_firstMinute (time : Int) :
    ({ utc time with second := 0, minute := (utc time).minute + 1 } : Civil).instant =
      60 * (time / 60 + 1) := by
  have htime := Calendar.instant_utc time
  have hsecond : (utc time).second = time % 60 := by
    simp only [utc]
    omega
  simp only [Civil.instant] at htime ⊢
  omega

/-- The next round is about the next minute. -/
theorem instant_nextMinute (m : Int) :
    ({ (gmtime (60 * m)).toCivil with minute := (gmtime (60 * m)).minute + 1 } : Civil).instant =
      60 * (m + 1) := by
  have hutc := Calendar.instant_utc (60 * m)
  rw [instant_addMinute]
  change (utc (60 * m)).instant + 60 = _
  omega

/-- The first minute from the `m`-th on at which a job is due, or none of `n`. -/
def FirstDue (e : Expression) (m : Int) (n : Nat) (r : Int) : Prop :=
  ∃ k : Nat, k < n ∧ r = 60 * (m + k) ∧ e.Due r ∧ ∀ j : Nat, j < k → ¬ e.Due (60 * (m + j))

theorem nextFireFrom_text (e : Expression) (afterTime : Int) (n : Nat) (m : Int) {t : Civil}
    (ht : t.instant = 60 * m) :
    ∃ r, nextFireFrom ⟨e.minute.text, e.hour.text, e.day.text, e.month.text, e.weekday.text⟩
        afterTime n t = some r ∧
      (FirstDue e m n r ∨ r = afterTime + 60 ∧ ∀ j : Nat, j < n → ¬ e.Due (60 * (m + j))) := by
  induction n generalizing m t with
  | zero => exact ⟨afterTime + 60, rfl, Or.inr ⟨rfl, by simp⟩⟩
  | succ n ih =>
      have hfound : andThen (some (decide (e.minute.Holds (gmtime (60 * m)).minute 0 59)))
          (andThen (some (decide (e.hour.Holds (gmtime (60 * m)).hour 0 23)))
            (andThen (some (decide (e.DayHolds (gmtime (60 * m)))))
              (some (decide (e.month.Holds ((gmtime (60 * m)).month + 1) 1 12))))) =
          some (decide (e.Due (60 * m))) := by
        rw [andThen_decide, andThen_decide, andThen_decide]
        refine congrArg some (decide_eq_decide.mpr ?_)
        rw [Expression.Due, Expression.TimeHolds]
        tauto
      rw [nextFireFrom]
      simp only [ht, if_neg (show ¬ 60 * m = -1 by omega), dayMatches_text, matchesField_text,
        Option.bind_some, hfound]
      by_cases hdue : e.Due (60 * m)
      · refine ⟨60 * m, by simp [hdue], Or.inl ⟨0, by omega, by simp, hdue, by simp⟩⟩
      · obtain ⟨r, hr, hcases⟩ := ih (m + 1) (instant_nextMinute m)
        rw [decide_eq_false hdue, if_neg Bool.false_ne_true]
        refine ⟨r, hr, ?_⟩
        -- the minutes from the next one on, and this one
        have hall : ∀ {k : Nat}, (∀ j : Nat, j < k → ¬ e.Due (60 * (m + 1 + j))) →
            ∀ j : Nat, j < k + 1 → ¬ e.Due (60 * (m + j)) := by
          intro k hk j hj
          cases j with
          | zero => simpa using hdue
          | succ j =>
              have hlater := hk j (by omega)
              rwa [Int.add_assoc, Int.add_comm 1] at hlater
        rcases hcases with ⟨k, hlt, heq, hdue', hbefore⟩ | ⟨heq, hnone⟩
        · refine Or.inl ⟨k + 1, by omega, ?_, hdue', hall hbefore⟩
          rw [heq, Int.add_assoc, Int.add_comm 1]
          rfl
        · exact Or.inr ⟨heq, hall hnone⟩

example : calculateNextFire (lit "*/15 9 1 1 1-5") (9 * 3600 - 200) = some (9 * 3600) := by
  decide +kernel

/-- Whatever the text, a next time is in a later minute, and not beyond those of a year. -/
theorem nextFireFrom_range {f : Fields} {afterTime : Int} {n : Nat} {m : Int} {t : Civil}
    (ht : t.instant = 60 * m) {r : Int} (h : nextFireFrom f afterTime n t = some r) :
    r = afterTime + 60 ∨ 60 * m ≤ r ∧ r ≤ 60 * (m + n - 1) := by
  induction n generalizing m t with
  | zero => exact Or.inl (Option.some.inj h).symm
  | succ n ih =>
      rw [nextFireFrom] at h
      simp only [ht] at h
      split at h
      · exact Or.inl (Option.some.inj h).symm
      · obtain ⟨dayMatches, -, h⟩ := Option.bind_eq_some_iff.mp h
        obtain ⟨found, -, h⟩ := Option.bind_eq_some_iff.mp h
        split at h
        · have heq := Option.some.inj h
          exact Or.inr (by omega)
        · rcases ih (instant_nextMinute m) h with heq | hrange
          · exact Or.inl heq
          · exact Or.inr (by omega)

theorem calculateNextFire_range {cronExpr : Str} {afterTime r : Int}
    (h : calculateNextFire cronExpr afterTime = some r) :
    afterTime / 60 < r / 60 ∧ r ≤ afterTime + 525600 * 60 := by
  unfold calculateNextFire at h
  split at h
  · have heq := Option.some.inj h
    omega
  · rcases nextFireFrom_range (instant_firstMinute afterTime) h with heq | hrange
    · omega
    · omega

end JiuwenCore.CronWatcher
