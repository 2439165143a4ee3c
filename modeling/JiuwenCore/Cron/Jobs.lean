import JiuwenCore.Cron.Schedule
import JiuwenCore.Lib.Runs
import Mathlib.Data.Rat.Floor

/-!
# Scheduled jobs

The jobs are in a file. The tool adds and removes them. The watcher reads the file, goes through
the jobs that are due, one after the other, and writes the file again when it has changed one;
what the tool has written in between is lost. `now` is the time at which a check begins, and a
job is done when the agent was not busy.
-/

namespace JiuwenCore.CronWatcher

/-! ## Jobs -/

inductive JobType where
  | oneTime | recurring | cron | other
  deriving DecidableEq, Repr

structure Job where
  /-- The place of the job among all that were added, which is not in the file. -/
  uid : Nat
  id : Str
  message : Str
  type : JobType
  fired : Bool := false
  removed : Bool := false
  nextFire : Int
  atTime : Int := 0
  everySeconds : ℚ := 0
  cronExpr : Str := []
  deriving DecidableEq

/-- A number of the file that is read as an `int`. -/
def readInt (value : Int) : Int := (Int32.ofInt value).toInt

/-- The cast of the interval to `time_t`. -/
def Job.interval (job : Job) : Int :=
  (if job.everySeconds ≤ 0 then 60 else job.everySeconds).floor

inductive Duty where
  | wait | fire | recalculate
  deriving DecidableEq, Repr

/-- What is to be done about a job, `none` where its expression makes the check throw. -/
def Job.duty (now : Int) (job : Job) : Option Duty :=
  match job.type with
  | .oneTime => some (if 0 < readInt job.atTime ∧ readInt job.atTime ≤ now then .fire else .wait)
  | .recurring =>
      some (if 0 < readInt job.nextFire ∧ readInt job.nextFire ≤ now then .fire else .wait)
  | .cron =>
      if job.cronExpr ≠ [] ∧ 0 < readInt job.nextFire ∧ readInt job.nextFire ≤ now then
        (matchesCronExpression job.cronExpr (gmtime now)).map fun matched =>
          if matched then .fire else .recalculate
      else some .wait
  | .other => some .wait

/-- A job that was done, `none` where its next time cannot be found. -/
def Job.afterwards (now : Int) (job : Job) : Option Job :=
  match job.type with
  | .oneTime => some { job with removed := true }
  | .cron =>
      (calculateNextFire job.cronExpr now).map fun next =>
        { job with nextFire := next, fired := false }
  | .recurring => some { job with nextFire := job.nextFire + job.interval, fired := false }
  | .other => some job

/-- What comes of an event: the watcher is stopping, or there is a text. -/
inductive Answer where
  | stopping
  | replied (response : Str) (running : Bool)
  deriving DecidableEq, Repr

def busyText : Str := lit "Agent is busy"

structure Checked where
  job : Job
  modified : Bool := false
  handled : Bool := false
  /-- The check ends here and saves nothing. -/
  left : Bool := false

def checkJob (now : Int) (answer : Answer) (job : Job) : Checked :=
  if job.removed ∨ job.fired ∧ job.type = .oneTime then { job := job }
  else
    match job.duty now with
    | none => { job := job, left := true }
    | some .wait => { job := job }
    | some .recalculate =>
        match calculateNextFire job.cronExpr now with
        | none => { job := job, left := true }
        | some next => { job := { job with nextFire := next }, modified := true }
    | some .fire =>
        match answer with
        | .stopping => { job := job }
        | .replied response running =>
            if response = busyText then { job := job }
            else
              match job.afterwards now with
              | none => { job := job, handled := true, left := true }
              | some job => { job := job, modified := true, handled := true, left := !running }

/-! ## The tool -/

structure Request where
  message : Str := []
  everySeconds : ℚ := 0
  /-- The instant that a text for it stands for, 0 if it cannot be read. -/
  at? : Option Int := none
  cronExpr : Str := []

/-- The job that `AddReminder` makes, if it makes one. -/
def newJob (now : Int) (uid : Nat) (r : Request) : Option Job :=
  let job : Job :=
    { uid := uid
      id := lit "job_" ++ Json.printInt now
      message := if r.message = [] then lit "Reminder" else r.message
      type := .other
      nextFire := 0 }
  if 0 < r.everySeconds then
    some { job with
      type := .recurring, everySeconds := r.everySeconds, nextFire := now + r.everySeconds.floor }
  else
    match r.at? with
    | some target =>
        if target = 0 ∨ target ≤ now then none
        else some { job with type := .oneTime, atTime := target, nextFire := target }
    | none =>
        if r.cronExpr = [] then none
        else
          (calculateNextFire r.cronExpr now).map fun next =>
            { job with type := .cron, cronExpr := r.cronExpr, nextFire := next }

/-- The first job with an id is marked. -/
def markRemoved (jobId : Str) : List Job → List Job
  | [] => []
  | job :: rest =>
      if job.id = jobId then { job with removed := true } :: rest else job :: markRemoved jobId rest

def Job.kept (job : Job) : Bool := !job.removed && !job.fired

/-! ## The system -/

structure Check where
  now : Int
  done : List Job := []
  todo : List Job
  modified : Bool := false

structure System where
  clock : Int
  /-- The array of the file, if there is one. -/
  file : Option (List Job) := none
  checking : Option Check := none
  /-- All jobs as they were added. -/
  born : List Job := []
  /-- Those that the tool has removed. -/
  dropped : List Nat := []
  /-- Which job was done in a check, and when the check had begun. -/
  log : List (Nat × Int) := []

inductive Event where
  | tick (seconds : Nat)
  | add (r : Request)
  | remove (jobId : Str)
  | begin
  /-- The check goes on to its next job. -/
  | next (answer : Answer)
  | finish

def System.remove (jobId : Str) (s : System) : System :=
  match s.file with
  | none => s
  | some jobs =>
      if jobs.any (·.id = jobId) then
        let marked := markRemoved jobId jobs
        let cleaned := marked.filter Job.kept
        { s with
          file := if cleaned = [] then none else some cleaned
          dropped := s.dropped ++ (marked.filter (!·.kept)).map Job.uid }
      else s

/-- A one-time job that is done is deleted. -/
def Job.deleted (job : Job) : Bool := job.removed && job.type = .oneTime

def System.finish (c : Check) (s : System) : System :=
  let left := c.done.filter (!·.deleted)
  if c.modified ∨ left.length < c.done.length then { s with file := some left, checking := none }
  else { s with checking := none }

def step (s : System) : Event → Option System
  | .tick seconds => some { s with clock := s.clock + seconds }
  | .add r =>
      match newJob s.clock s.born.length r with
      | none => some s
      | some job =>
          some { s with file := some (s.file.getD [] ++ [job]), born := s.born ++ [job] }
  | .remove jobId => some (s.remove jobId)
  | .begin =>
      match s.checking, s.file with
      | none, some jobs => some { s with checking := some { now := s.clock, todo := jobs } }
      | none, none => some s
      | some _, _ => none
  | .next answer =>
      match s.checking with
      | some { now, done, todo := job :: rest, modified } =>
          let c := checkJob now answer job
          some { s with
            checking :=
              if c.left then none
              else
                some { now := now, done := done ++ [c.job], todo := rest,
                       modified := modified || c.modified }
            log := if c.handled then s.log ++ [(job.uid, now)] else s.log }
      | _ => none
  | .finish =>
      match s.checking with
      | some c => if c.todo = [] then some (s.finish c) else none
      | none => none

/-! ## What a check does to a job -/

theorem recalculate_spec {now : Int} {job : Job} (h : job.duty now = some .recalculate) :
    job.type = .cron ∧ 0 < readInt job.nextFire ∧ readInt job.nextFire ≤ now := by
  unfold Job.duty at h
  split at h
  · split at h
    · cases h
    · cases h
  · split at h
    · cases h
    · cases h
  · rename_i htype
    split at h
    · rename_i hpast
      exact ⟨htype, hpast.2⟩
    · cases h
  · cases h

/-- A job is as it was, or has a new time, or was done. -/
theorem checkJob_cases (now : Int) (answer : Answer) (job : Job) :
    let c := checkJob now answer job
    (c.job = job ∧ c.modified = false ∧ c.handled = false) ∨
      (job.type = .cron ∧ (0 < readInt job.nextFire ∧ readInt job.nextFire ≤ now) ∧
        c.modified = true ∧ c.handled = false ∧
        ∃ next, calculateNextFire job.cronExpr now = some next ∧
          c.job = { job with nextFire := next }) ∨
      (job.removed = false ∧ job.duty now = some .fire ∧ c.handled = true ∧
        (c.left = true ∧ c.job = job ∨
          c.modified = true ∧ job.afterwards now = some c.job)) := by
  intro c
  by_cases hskip : job.removed = true ∨ job.fired = true ∧ job.type = .oneTime
  · have hc : c = { job := job } := if_pos hskip
    rw [hc]
    exact Or.inl ⟨rfl, rfl, rfl⟩
  · have hremoved : job.removed = false := by
      rw [not_or, Bool.not_eq_true] at hskip
      exact hskip.1
    simp only [c, checkJob, if_neg hskip]
    cases hduty : job.duty now with
    | none => exact Or.inl ⟨rfl, rfl, rfl⟩
    | some duty =>
        cases duty with
        | wait => exact Or.inl ⟨rfl, rfl, rfl⟩
        | recalculate =>
            cases hnext : calculateNextFire job.cronExpr now with
            | none => exact Or.inl ⟨rfl, rfl, rfl⟩
            | some next =>
                obtain ⟨htype, hpast⟩ := recalculate_spec hduty
                exact Or.inr (Or.inl ⟨htype, hpast, rfl, rfl, next, rfl, rfl⟩)
        | fire =>
            cases answer with
            | stopping => exact Or.inl ⟨rfl, rfl, rfl⟩
            | replied response running =>
                simp only
                split
                · exact Or.inl ⟨rfl, rfl, rfl⟩
                · refine Or.inr (Or.inr ⟨hremoved, trivial, ?_⟩)
                  cases job.afterwards now with
                  | none => exact ⟨rfl, Or.inl ⟨rfl, rfl⟩⟩
                  | some job' => exact ⟨rfl, Or.inr ⟨rfl, rfl⟩⟩

/-- The times at which a job was done. -/
def handledAt (log : List (Nat × Int)) (uid : Nat) : List Int :=
  (log.filter (·.1 = uid)).map (·.2)

theorem handledAt_snoc (log : List (Nat × Int)) (uid uid' : Nat) (now : Int) :
    handledAt (log ++ [(uid', now)]) uid =
      if uid = uid' then handledAt log uid ++ [now] else handledAt log uid := by
  by_cases h : uid = uid'
  · simp [handledAt, h]
  · simp [handledAt, h, Ne.symm h]

theorem handledAt_nil {log : List (Nat × Int)} {uid : Nat} (h : ∀ entry ∈ log, entry.1 < uid) :
    handledAt log uid = [] := by
  rw [handledAt, List.filter_eq_nil_iff.mpr, List.map_nil]
  intro entry hentry
  have hlt := h entry hentry
  simp only [decide_eq_true_eq]
  omega

theorem handledAt_grows {log more : List (Nat × Int)} {uid : Nat} (h : handledAt log uid ≠ []) :
    handledAt (log ++ more) uid ≠ [] := by
  intro hnil
  rw [handledAt, List.filter_append, List.map_append] at hnil
  exact h (List.append_eq_nil_iff.mp hnil).1

/-- What stays the same of a job. -/
structure Job.Same (born job : Job) : Prop where
  uid : job.uid = born.uid
  type : job.type = born.type
  atTime : job.atTime = born.atTime
  everySeconds : job.everySeconds = born.everySeconds
  cronExpr : job.cronExpr = born.cronExpr

theorem Job.Same.trans {a b c : Job} (hab : a.Same b) (hbc : b.Same c) : a.Same c :=
  ⟨hbc.uid.trans hab.uid, hbc.type.trans hab.type, hbc.atTime.trans hab.atTime,
    hbc.everySeconds.trans hab.everySeconds, hbc.cronExpr.trans hab.cronExpr⟩

theorem Job.afterwards_same {job job' : Job} {now : Int} (h : job.afterwards now = some job') :
    job.Same job' := by
  unfold Job.afterwards at h
  split at h
  · cases h
    exact ⟨rfl, rfl, rfl, rfl, rfl⟩
  · obtain ⟨next, -, rfl⟩ := Option.map_eq_some_iff.mp h
    exact ⟨rfl, rfl, rfl, rfl, rfl⟩
  · cases h
    exact ⟨rfl, rfl, rfl, rfl, rfl⟩
  · cases h
    exact ⟨rfl, rfl, rfl, rfl, rfl⟩

theorem afterwards_removed {job job' : Job} {now : Int} (h : job.afterwards now = some job')
    (hremoved : job'.removed = true) : job.removed = true ∨ job.type = .oneTime := by
  unfold Job.afterwards at h
  split at h
  · exact Or.inr (by assumption)
  · obtain ⟨next, -, rfl⟩ := Option.map_eq_some_iff.mp h
    exact Or.inl hremoved
  · cases h
    exact Or.inl hremoved
  · cases h
    exact Or.inl hremoved

theorem newJob_fresh {now : Int} {uid : Nat} {r : Request} {job : Job}
    (h : newJob now uid r = some job) : job.uid = uid ∧ job.removed = false := by
  unfold newJob at h
  simp only at h
  split at h
  · cases h
    exact ⟨rfl, rfl⟩
  · split at h
    · split at h
      · cases h
      · cases h
        exact ⟨rfl, rfl⟩
    · split at h
      · cases h
      · obtain ⟨next, -, rfl⟩ := Option.map_eq_some_iff.mp h
        exact ⟨rfl, rfl⟩

theorem remove_sublist (jobId : Str) (jobs : List Job) :
    ((markRemoved jobId jobs).filter Job.kept).Sublist jobs := by
  induction jobs with
  | nil => exact List.Sublist.refl _
  | cons job rest ih =>
      rw [markRemoved]
      split
      · rw [List.filter_cons_of_neg (by simp [Job.kept])]
        exact List.filter_sublist.cons _
      · rw [List.filter_cons]
        split
        · exact ih.cons_cons _
        · exact ih.cons _

theorem markRemoved_uids (jobId : Str) (jobs : List Job) :
    (markRemoved jobId jobs).map Job.uid = jobs.map Job.uid := by
  induction jobs with
  | nil => rfl
  | cons job rest ih =>
      rw [markRemoved]
      split
      · rfl
      · rw [List.map_cons, List.map_cons, ih]

/-- The check goes on to its next job. -/
def System.advance (s : System) (c : Check) (job : Job) (rest : List Job) (checked : Checked) :
    System :=
  { s with
    checking :=
      some { now := c.now, done := c.done ++ [checked.job], todo := rest,
             modified := c.modified || checked.modified }
    log := if checked.handled then s.log ++ [(job.uid, c.now)] else s.log }

theorem getElem?_snoc {α : Type} {l : List α} {a b : α} {i : Nat} (h : (l ++ [a])[i]? = some b) :
    l[i]? = some b ∨ i = l.length ∧ b = a := by
  rw [List.getElem?_append] at h
  split at h
  · exact Or.inl h
  · rw [List.getElem?_singleton] at h
    split at h
    · exact Or.inr ⟨by omega, (Option.some.inj h).symm⟩
    · cases h

end JiuwenCore.CronWatcher
