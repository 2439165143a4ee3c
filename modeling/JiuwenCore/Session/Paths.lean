import JiuwenCore.Text
import Mathlib.Data.List.Forall2

/-!
# Where a session is stored

The names of session directories and the keys of chats, and the place in the file
system a path leads to. Symbolic links are not followed: a path is read component by
component, from the current directory if it is relative.
-/

namespace JiuwenCore.Session

/-! ## Names -/

/-- A byte `SanitizePathName` does not let through. -/
def replacedByte (c : UInt8) : Bool :=
  c ≤ 0x1F || c = 0x7F || c = 92 || c = 47 || c = 58 || c = 42 || c = 63 || c = 34 || c = 60 ||
    c = 62 || c = 124

def sanitizePathName (name : Str) : Str :=
  if name = [] then lit "unnamed"
  else if name = lit "." then lit "dot"
  else if name = lit ".." then lit "dotdot"
  else
    let result := name.map fun c => if replacedByte c then 95 else c
    if result = [] then lit "unnamed" else result

def kDefaultSessionId : Str := lit "__DEFAULT__"

def makeSessionKey (channel chatId : Str) : Str :=
  if channel = [] ∧ chatId = [] then kDefaultSessionId else channel ++ lit "_" ++ chatId

/-! ## Paths -/

/-- `operator/` of a path and a relative one. -/
def pathJoin (path name : Str) : Str :=
  if path = [] then name
  else if path.getLast? = some 47 then path ++ name
  else path ++ [47] ++ name

/-- The components of an absolute path. -/
abbrev Location := List Str

def enter (at_ : Location) (part : Str) : Location :=
  if part = [] ∨ part = lit "." then at_
  else if part = lit ".." then at_.dropLast
  else at_ ++ [part]

/-- The place a path leads to. -/
def locate (cwd : Location) (path : Str) : Location :=
  (path.splitOn 47).foldl enter (if path.head? = some 47 then [] else cwd)

def basePathOf (dataBasePath : Str) : Str :=
  if dataBasePath = [] then lit "./data" else dataBasePath

/-- `sessionDir` of `FindOrCreateEntry` and `RemoveSession`. -/
def sessionDir (dataBasePath sessionId : Str) : Str :=
  pathJoin (pathJoin (basePathOf dataBasePath) (lit "sessions")) (sanitizePathName sessionId)

def sessionLocation (cwd : Location) (dataBasePath sessionId : Str) : Location :=
  locate cwd (sessionDir dataBasePath sessionId)

example : sessionLocation [lit "srv"] [] (lit "a:b") =
    [lit "srv", lit "data", lit "sessions", lit "a_b"] := by decide +kernel

/-! ## Plain names -/

/-- A single component that leads down. -/
structure PlainName (name : Str) : Prop where
  ne_nil : name ≠ []
  ne_dot : name ≠ lit "."
  ne_dotdot : name ≠ lit ".."
  no_slash : 47 ∉ name

theorem PlainName.enter {name : Str} (h : PlainName name) (at_ : Location) :
    enter at_ name = at_ ++ [name] := by
  rw [Session.enter, if_neg (not_or.mpr ⟨h.ne_nil, h.ne_dot⟩), if_neg h.ne_dotdot]

/-- The place of a plain name below a path. -/
theorem locate_pathJoin (cwd : Location) {path name : Str} (hpath : path ≠ [])
    (hname : PlainName name) : locate cwd (pathJoin path name) = locate cwd path ++ [name] := by
  have hlast : name.splitOn 47 = [name] := List.splitOn_eq_singleton hname.no_slash
  have hhead : ∀ tail : Str, (path ++ tail).head? = path.head? := by
    intro tail
    cases path with
    | nil => exact absurd rfl hpath
    | cons c path => rfl
  rw [pathJoin, if_neg hpath]
  split
  · rename_i hslash
    obtain ⟨front, rfl⟩ := List.getLast?_eq_some_iff.mp hslash
    have hjoined : (front ++ [47] ++ name).splitOn 47 = front.splitOn 47 ++ [name] := by
      rw [List.append_assoc, List.singleton_append, List.splitOn_append_cons_self, hlast]
    have hpathSplit : (front ++ [47]).splitOn 47 = front.splitOn 47 ++ [[]] :=
      List.splitOn_append_cons_self ..
    have hstay : ∀ at_, enter at_ [] = at_ := fun at_ => if_pos (Or.inl rfl)
    rw [locate, locate, hjoined, hpathSplit, hhead, List.foldl_append, List.foldl_append,
      List.foldl_cons, List.foldl_nil, List.foldl_cons, List.foldl_nil, hname.enter, hstay]
  · have hjoined : (path ++ [47] ++ name).splitOn 47 = path.splitOn 47 ++ [name] := by
      rw [List.append_assoc, List.singleton_append, List.splitOn_append_cons_self, hlast]
    rw [locate, locate, hjoined, List.append_assoc, hhead, List.foldl_append, List.foldl_cons,
      List.foldl_nil, hname.enter]

/-! ## Session directories -/

/-- The name before its bytes are replaced. -/
def readableName (name : Str) : Str :=
  if name = [] then lit "unnamed"
  else if name = lit "." then lit "dot"
  else if name = lit ".." then lit "dotdot"
  else name

def safeByte (c : UInt8) : UInt8 := if replacedByte c then 95 else c

theorem sanitizePathName_eq (name : Str) :
    sanitizePathName name = (readableName name).map safeByte := by
  have hfixed : (lit "unnamed").map safeByte = lit "unnamed" ∧
      (lit "dot").map safeByte = lit "dot" ∧ (lit "dotdot").map safeByte = lit "dotdot" := by
    decide
  unfold sanitizePathName readableName
  split
  · exact hfixed.1.symm
  split
  · exact hfixed.2.1.symm
  split
  · exact hfixed.2.2.symm
  · rename_i hne _ _
    have hmap : name.map safeByte ≠ [] := by simpa using hne
    exact if_neg hmap

theorem safeByte_eq_replaced {c b : UInt8} (hb : replacedByte b = true) : safeByte c ≠ b := by
  intro h
  unfold safeByte at h
  split at h
  · have hunderscore : replacedByte 95 = false := by decide
    rw [← h, hunderscore] at hb
    cases hb
  · rename_i hc
    exact hc (h ▸ hb)

theorem safeByte_eq_dot {c : UInt8} (h : safeByte c = 46) : c = 46 := by
  unfold safeByte at h
  split at h
  · cases h
  · exact h

/-- A sanitised name is a plain one. -/
theorem sanitizePathName_plain (name : Str) : PlainName (sanitizePathName name) := by
  have hdots : ∀ dots : Str, (∀ c ∈ dots, c = 46) → dots ≠ readableName name →
      (readableName name).map safeByte ≠ dots := by
    intro dots hall hne h
    have hsame : readableName name = dots := by
      have hlen : (readableName name).length = dots.length := by rw [← h, List.length_map]
      have hleft : readableName name = List.replicate dots.length 46 := by
        refine List.eq_replicate_iff.mpr ⟨hlen, fun c hc => safeByte_eq_dot (hall _ ?_)⟩
        rw [← h]
        exact List.mem_map_of_mem hc
      rw [hleft]
      exact (List.eq_replicate_iff.mpr ⟨rfl, hall⟩).symm
    exact hne hsame.symm
  have hreadable : readableName name ≠ [] ∧ lit "." ≠ readableName name ∧
      lit ".." ≠ readableName name := by
    unfold readableName
    split
    · decide
    split
    · decide
    split
    · decide
    · rename_i hnil hdot hdotdot
      exact ⟨hnil, Ne.symm hdot, Ne.symm hdotdot⟩
  rw [sanitizePathName_eq]
  refine ⟨?_, hdots _ (by decide) hreadable.2.1, hdots _ (by decide) hreadable.2.2, ?_⟩
  · simpa using hreadable.1
  · intro hslash
    obtain ⟨c, _, hc⟩ := List.mem_map.mp hslash
    exact safeByte_eq_replaced (by decide) hc

theorem basePathOf_ne_nil (dataBasePath : Str) : basePathOf dataBasePath ≠ [] := by
  unfold basePathOf
  split
  · decide
  · assumption

theorem pathJoin_ne_nil {path name : Str} (h : path ≠ []) : pathJoin path name ≠ [] := by
  unfold pathJoin
  rw [if_neg h]
  split <;> simp [h]

/-- The directory of a session stands below the base path under its sanitised name. -/
theorem sessionLocation_eq (cwd : Location) (dataBasePath sessionId : Str) :
    sessionLocation cwd dataBasePath sessionId =
      locate cwd (basePathOf dataBasePath) ++ [lit "sessions", sanitizePathName sessionId] := by
  have hsessions : PlainName (lit "sessions") := ⟨by decide, by decide, by decide, by decide⟩
  have hbase := basePathOf_ne_nil dataBasePath
  rw [sessionLocation, sessionDir, locate_pathJoin cwd (pathJoin_ne_nil hbase)
    (sanitizePathName_plain sessionId), locate_pathJoin cwd hbase hsessions, List.append_assoc]
  rfl

theorem sessionLocation_inj {cwd : Location} {dataBasePath a b : Str} :
    sessionLocation cwd dataBasePath a = sessionLocation cwd dataBasePath b ↔
      sanitizePathName a = sanitizePathName b := by
  rw [sessionLocation_eq, sessionLocation_eq]
  simp

/-- Two bytes that become the same one. -/
def SameByte (a b : UInt8) : Prop :=
  a = b ∨ (replacedByte a ∨ a = 95) ∧ (replacedByte b ∨ b = 95)

theorem safeByte_eq_iff (a b : UInt8) : safeByte a = safeByte b ↔ SameByte a b := by
  unfold safeByte SameByte
  have hunderscore : ¬ replacedByte 95 := by decide
  by_cases ha : replacedByte a = true <;> by_cases hb : replacedByte b = true
  · simp [ha, hb]
  · simp only [ha, hb, if_true, if_false, true_or, true_and, Bool.false_eq_true, false_or]
    constructor
    · exact fun h => Or.inr h.symm
    · rintro (rfl | rfl)
      · exact absurd ha hb
      · rfl
  · simp only [ha, hb, if_true, if_false, true_or, and_true, Bool.false_eq_true, false_or]
    constructor
    · exact Or.inr
    · rintro (rfl | rfl)
      · exact absurd hb ha
      · rfl
  · simp only [ha, hb, if_false, Bool.false_eq_true, false_or]
    constructor
    · exact Or.inl
    · rintro (h | ⟨rfl, rfl⟩)
      · exact h
      · rfl

/-- Two ids whose directories have one name. -/
def NamesClash (a b : Str) : Prop := List.Forall₂ SameByte (readableName a) (readableName b)

theorem sanitizePathName_eq_iff (a b : Str) :
    sanitizePathName a = sanitizePathName b ↔ NamesClash a b := by
  rw [sanitizePathName_eq, sanitizePathName_eq, NamesClash]
  generalize readableName a = a, readableName b = b
  induction a generalizing b with
  | nil => cases b <;> simp
  | cons x a ih =>
      cases b with
      | nil => simp
      | cons y b =>
          rw [List.map_cons, List.map_cons, List.cons.injEq, List.forall₂_cons, ih,
            safeByte_eq_iff]

/-! ## Keys of chats -/

/-- Two chats with one key: an underscore in one of the parts, or the key of the default
session spelled out. -/
def KeysClash (channel chatId channel' chatId' : Str) : Prop :=
  (∃ mid, channel' = channel ++ 95 :: mid ∧ chatId = mid ++ 95 :: chatId') ∨
    (∃ mid, channel = channel' ++ 95 :: mid ∧ chatId' = mid ++ 95 :: chatId) ∨
    ((channel = [] ∧ chatId = []) ∧ channel' ++ 95 :: chatId' = kDefaultSessionId) ∨
    ((channel' = [] ∧ chatId' = []) ∧ channel ++ 95 :: chatId = kDefaultSessionId)

theorem keysClash_irrefl (channel chatId : Str) :
    ¬ KeysClash channel chatId channel chatId := by
  have hlonger : ∀ a mid : Str, a ≠ a ++ 95 :: mid := by
    intro a mid h
    have hlength := congrArg List.length h
    rw [List.length_append, List.length_cons] at hlength
    omega
  have hunderscore : ([] : Str) ++ 95 :: [] ≠ kDefaultSessionId := by decide
  rintro (⟨mid, h, _⟩ | ⟨mid, h, _⟩ | ⟨⟨rfl, rfl⟩, h⟩ | ⟨⟨rfl, rfl⟩, h⟩)
  · exact hlonger _ _ h
  · exact hlonger _ _ h
  · exact hunderscore h
  · exact hunderscore h

theorem joined_eq_iff (a b a' b' : Str) :
    a ++ 95 :: b = a' ++ 95 :: b' ↔
      (a = a' ∧ b = b') ∨ (∃ mid, a' = a ++ 95 :: mid ∧ b = mid ++ 95 :: b') ∨
        ∃ mid, a = a' ++ 95 :: mid ∧ b' = mid ++ 95 :: b := by
  rw [List.append_eq_append_iff]
  constructor
  · rintro (⟨mid, rfl, hmid⟩ | ⟨mid, rfl, hmid⟩)
    · cases mid with
      | nil => simp_all
      | cons c mid =>
          rw [List.cons_append, List.cons.injEq] at hmid
          obtain ⟨rfl, rfl⟩ := hmid
          exact Or.inr (Or.inl ⟨mid, rfl, rfl⟩)
    · cases mid with
      | nil => simp_all
      | cons c mid =>
          rw [List.cons_append, List.cons.injEq] at hmid
          obtain ⟨rfl, rfl⟩ := hmid
          exact Or.inr (Or.inr ⟨mid, rfl, rfl⟩)
  · rintro (⟨rfl, rfl⟩ | ⟨mid, rfl, rfl⟩ | ⟨mid, rfl, rfl⟩)
    · exact Or.inl ⟨[], by simp⟩
    · exact Or.inl ⟨95 :: mid, by simp⟩
    · exact Or.inr ⟨95 :: mid, by simp⟩

theorem makeSessionKey_eq_iff (channel chatId channel' chatId' : Str) :
    makeSessionKey channel chatId = makeSessionKey channel' chatId' ↔
      (channel = channel' ∧ chatId = chatId') ∨ KeysClash channel chatId channel' chatId' := by
  have hkey : ∀ a b : Str, ¬ (a = [] ∧ b = []) → makeSessionKey a b = a ++ 95 :: b := by
    intro a b h
    rw [makeSessionKey, if_neg h, List.append_assoc]
    rfl
  have hdefault : ∀ a b : Str, (a = [] ∧ b = []) → makeSessionKey a b = kDefaultSessionId :=
    fun a b h => if_pos h
  unfold KeysClash
  by_cases h : channel = [] ∧ chatId = [] <;> by_cases h' : channel' = [] ∧ chatId' = []
  · rw [hdefault _ _ h, hdefault _ _ h']
    exact iff_of_true rfl (Or.inl ⟨h.1.trans h'.1.symm, h.2.trans h'.2.symm⟩)
  · rw [hdefault _ _ h, hkey _ _ h']
    have hne : ¬ (channel = channel' ∧ chatId = chatId') := by
      rintro ⟨rfl, rfl⟩
      exact h' h
    constructor
    · exact fun heq => Or.inr (Or.inr (Or.inr (Or.inl ⟨h, heq.symm⟩)))
    · rintro (heq | ⟨mid, _, hmid⟩ | ⟨mid, hmid, _⟩ | ⟨_, heq⟩ | ⟨hnil, _⟩)
      · exact absurd heq hne
      · rw [h.2] at hmid
        simp at hmid
      · rw [h.1] at hmid
        simp at hmid
      · exact heq.symm
      · exact absurd hnil h'
  · rw [hkey _ _ h, hdefault _ _ h']
    have hne : ¬ (channel = channel' ∧ chatId = chatId') := by
      rintro ⟨rfl, rfl⟩
      exact h h'
    constructor
    · exact fun heq => Or.inr (Or.inr (Or.inr (Or.inr ⟨h', heq⟩)))
    · rintro (heq | ⟨mid, hmid, _⟩ | ⟨mid, _, hmid⟩ | ⟨hnil, _⟩ | ⟨_, heq⟩)
      · exact absurd heq hne
      · rw [h'.1] at hmid
        simp at hmid
      · rw [h'.2] at hmid
        simp at hmid
      · exact absurd hnil h
      · exact heq
  · rw [hkey _ _ h, hkey _ _ h', joined_eq_iff]
    simp only [h, h', false_and, or_false]

end JiuwenCore.Session
