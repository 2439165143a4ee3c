import JiuwenCore.Config.AgentConfig
import JiuwenCore.Core.HistoryStore
import JiuwenCore.Lib.Calendar
import JiuwenCore.Lib.LineFeed
import JiuwenCore.Lib.Words
import JiuwenCore.Utils.ToolParser

/-!
# Entities that have expired

Entities of the event types are taken out of a context package when they are older than a number
of days, and with them the relations and the lines of the text that name them.
-/

namespace JiuwenCore.EntityDecay

open Config (MemoryConfig)
open HistoryStore (isSpace signed)
open Json (isDigit)

/-! ## The package -/

structure MemoryEntity where
  id : Str
  entityType : Str
  name : Str
  summary : Str
  updatedAt : Str
  deriving DecidableEq, Repr

structure MemoryRelation where
  id : Str
  fromEntityId : Str
  relationType : Str
  toEntityId : Str
  deriving DecidableEq, Repr

structure MemoryContextPackage where
  memoryText : Str
  entities : List MemoryEntity
  relations : List MemoryRelation
  deriving DecidableEq, Repr

/-! ## The time of an entity -/

/-- A `std::tm`: the years since 1900, and the months from 0. -/
structure Tm where
  year : Int
  mon : Int
  mday : Int
  hour : Int
  min : Int
  sec : Int
  deriving DecidableEq, Repr

/-- The seconds by which a host is ahead of UTC at a local time. -/
abbrev Zone := Tm → Int

def timegm (tm : Tm) : Int :=
  Calendar.Civil.instant ⟨tm.year + 1900, tm.mon, tm.mday, tm.hour, tm.min, tm.sec⟩

/-- `std::mktime` reads a local time. -/
def mktime (zone : Zone) (tm : Tm) : Int := timegm tm - zone tm

/-- `>>` of an `int`, with what follows it. -/
def readInt (s : Str) : Option (Int × Str) :=
  let (sign, rest) := signed (s.dropWhile isSpace)
  let digits := rest.takeWhile isDigit
  let value := sign * ofDecimal digits
  if digits ≠ [] ∧ -2 ^ 31 ≤ value ∧ value < 2 ^ 31 then some (value, rest.dropWhile isDigit)
  else none

/-- `>>` of a `char`, with what follows it. -/
def readChar (s : Str) : Option (UInt8 × Str) :=
  match s.dropWhile isSpace with
  | [] => none
  | c :: rest => some (c, rest)

def readTm (s : Str) : Option Tm := do
  let (year, s) ← readInt s
  let (_, s) ← readChar s
  let (mon, s) ← readInt s
  let (_, s) ← readChar s
  let (mday, s) ← readInt s
  let (hour, s) ← readInt s
  let (_, s) ← readChar s
  let (min, s) ← readInt s
  let (_, s) ← readChar s
  let (sec, _) ← readInt s
  return ⟨year, mon, mday, hour, min, sec⟩

/-- `ParseSqliteTimestamp`: 0 where the text cannot be read. -/
def parseSqliteTimestamp (zone : Zone) (s : Str) : Int :=
  if s.length < 19 then 0
  else
    match readTm s with
    | none => 0
    | some tm => mktime zone { tm with year := tm.year - 1900, mon := tm.mon - 1 }

/-! ## The text -/

/-- Whether the line starts as the one of an entity, or has the id as one of its words. -/
def namesDropped (droppedIds : List Str) (line : Str) : Bool :=
  droppedIds.any (fun id => (lit "- " ++ id ++ lit " (").isPrefixOf line) ||
    (Words.words isSpace line).any fun tok => droppedIds.contains tok

/-- `RewriteMemoryText`, which looks at the lines with a bullet only. -/
def rewriteMemoryText (droppedIds : List Str) (memoryText : Str) : Str :=
  if droppedIds = [] then memoryText
  else
    LineFeed.unlines 10 ((LineFeed.getLines 10 memoryText).filter fun line =>
      !((lit "- ").isPrefixOf line && namesDropped droppedIds line))

/-! ## The filter -/

/-- The test of the loop: a time that cannot be read is as old as can be. -/
def isExpired (zone : Zone) (now : Int) (config : MemoryConfig) (e : MemoryEntity) : Bool :=
  let cutoff := now - config.eventEntityTtlDays.toInt * 86400
  let updated := parseSqliteTimestamp zone e.updatedAt
  e.entityType ∈ config.eventEntityTypes ∧ ¬ (0 < updated ∧ cutoff ≤ updated)

/-- `FilterExpiredEventEntities`, with the number of ids it has dropped. -/
def filterExpiredEventEntities (zone : Zone) (now : Int) (pkg : MemoryContextPackage)
    (config : MemoryConfig) : MemoryContextPackage × Nat :=
  if config.eventEntityTtlDays ≤ 0 then (pkg, 0)
  else if config.eventEntityTypes = [] then (pkg, 0)
  else if pkg.entities = [] then (pkg, 0)
  else
    let (dropped, kept) := pkg.entities.partition (isExpired zone now config)
    let droppedIds := (dropped.map (·.id)).dedup
    if droppedIds = [] then ({ pkg with entities := kept }, 0)
    else
      ({ memoryText := rewriteMemoryText droppedIds pkg.memoryText
         entities := kept
         relations := pkg.relations.filter fun r =>
          !(droppedIds.contains r.fromEntityId || droppedIds.contains r.toEntityId) },
        droppedIds.length)

/-! ## What the filter does -/

section Filter

variable (zone : Zone) (now : Int) (pkg : MemoryContextPackage) (config : MemoryConfig)

/-- Whether the filter is on and finds an entity expired. -/
def removes (e : MemoryEntity) : Bool :=
  0 < config.eventEntityTtlDays ∧ isExpired zone now config e

def removedIds : List Str := ((pkg.entities.filter (removes zone now config)).map (·.id)).dedup

/-- The package without what is removed. -/
def withoutRemoved : MemoryContextPackage where
  memoryText := rewriteMemoryText (removedIds zone now pkg config) pkg.memoryText
  entities := pkg.entities.filter fun e => !removes zone now config e
  relations := pkg.relations.filter fun r =>
    !((removedIds zone now pkg config).contains r.fromEntityId ||
      (removedIds zone now pkg config).contains r.toEntityId)

variable {zone now pkg config}

theorem removedIds_eq_nil (h : ∀ e ∈ pkg.entities, removes zone now config e = false) :
    removedIds zone now pkg config = [] := by
  have hfilter : pkg.entities.filter (removes zone now config) = [] := by
    rw [List.filter_eq_nil_iff]
    intro e he
    simp [h e he]
  rw [removedIds, hfilter]
  rfl

theorem withoutRemoved_eq_self (h : ∀ e ∈ pkg.entities, removes zone now config e = false) :
    withoutRemoved zone now pkg config = pkg := by
  have hentities : pkg.entities.filter (fun e => !removes zone now config e) = pkg.entities := by
    rw [List.filter_eq_self]
    intro e he
    simp [h e he]
  rw [withoutRemoved, hentities, removedIds_eq_nil h]
  simp [rewriteMemoryText]

variable (zone now pkg config)

/-- The filter, on or off. -/
theorem filterExpiredEventEntities_eq :
    filterExpiredEventEntities zone now pkg config =
      (withoutRemoved zone now pkg config, (removedIds zone now pkg config).length) := by
  have hnone : (∀ e ∈ pkg.entities, removes zone now config e = false) →
      (pkg, 0) = (withoutRemoved zone now pkg config, (removedIds zone now pkg config).length) := by
    intro h
    rw [withoutRemoved_eq_self h, removedIds_eq_nil h]
    rfl
  unfold filterExpiredEventEntities
  split
  · rename_i hoff
    apply hnone
    intro e he
    simp [removes, Int32.not_lt.mpr hoff]
  split
  · rename_i hon htypes
    apply hnone
    intro e he
    simp [removes, isExpired, htypes]
  split
  · rename_i hon htypes hentities
    apply hnone
    simp [hentities]
  · rename_i hon htypes hentities
    have hremoves : isExpired zone now config = removes zone now config := by
      funext e
      simp [removes, Int32.not_le.mp hon]
    rw [List.partition_eq_filter_filter, hremoves]
    simp only
    split
    · rename_i hids
      have hnil : removedIds zone now pkg config = [] := hids
      simp [withoutRemoved, hnil, rewriteMemoryText, Function.comp_def]
    · rfl

end Filter

end JiuwenCore.EntityDecay
