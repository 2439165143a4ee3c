import JiuwenCore.Cron.Jobs

/-!
# When jobs are done

What the watcher promises of the times at which it triggers a job, whatever the tool does in the
middle of its checks.
-/

namespace JiuwenCore.CronWatcher

/-- When a job that was added may have been done. -/
def Regular (job : Job) (times : List Int) : Prop :=
  match job.type with
  | .oneTime => times.length ≤ 1 ∧ ∀ t ∈ times, job.atTime ≤ t
  | .recurring => ∀ (i : Nat) (t : Int), times[i]? = some t → job.nextFire + i * job.interval ≤ t
  | .cron =>
      times.Pairwise (fun t u => t / 60 < u / 60) ∧
        ∀ t ∈ times, matchesCronExpression job.cronExpr (gmtime t) = some true
  | .other => times = []

/-- How a job stands that was done at some times. -/
structure Job.Current (born job : Job) (times : List Int) : Prop where
  same : born.Same job
  next :
    match job.type with
    | .oneTime => job.removed = false → times = []
    | .recurring => job.nextFire = born.nextFire + times.length * born.interval
    | .cron => ∀ t ∈ times, t / 60 < job.nextFire / 60
    | .other => times = []

/-- The numbers of a job are not beyond what an `int` can tell. -/
structure Job.Ranged (job : Job) : Prop where
  atTime : 0 ≤ job.atTime ∧ job.atTime < 2 ^ 32
  nextFire : 0 ≤ job.nextFire ∧ job.nextFire < 2 ^ 32
  interval : 0 ≤ job.interval ∧ job.interval < 2 ^ 31

theorem Job.Same.interval {born job : Job} (h : born.Same job) : job.interval = born.interval := by
  rw [Job.interval, Job.interval, h.everySeconds]

/-- A time that is read as past is past. -/
theorem readInt_past {value now : Int} (hvalue : 0 ≤ value ∧ value < 2 ^ 32)
    (h : 0 < readInt value ∧ readInt value ≤ now) : value ≤ now := by
  rw [readInt, Int32.toInt_ofInt, Int32.size, Int.bmod] at h
  split at h <;> omega

/-- A job that is due is done in time, and stands as before. -/
theorem Job.Current.afterwards {born job job' : Job} {times : List Int} {now : Int}
    (h : born.Current job times) (hranged : job.Ranged) (hregular : Regular born times)
    (hnow : 0 ≤ now ∧ now < 2 ^ 31) (hremoved : job.removed = false)
    (hduty : job.duty now = some .fire) (hafter : job.afterwards now = some job') :
    born.Current job' (times ++ [now]) ∧ job'.Ranged ∧ Regular born (times ++ [now]) := by
  obtain ⟨hsame, hnext⟩ := h
  have hsame' := hsame.trans (Job.afterwards_same hafter)
  unfold Regular at hregular ⊢
  unfold Job.duty at hduty
  unfold Job.afterwards at hafter
  rw [← hsame.type] at hregular ⊢
  cases htype : job.type with
  | oneTime =>
      simp only [htype] at hnext hregular hduty hafter ⊢
      cases hafter
      have htimes := hnext hremoved
      have hpast : job.atTime ≤ now := by
        by_cases hat : 0 < readInt job.atTime ∧ readInt job.atTime ≤ now
        · exact readInt_past hranged.atTime hat
        · rw [if_neg hat] at hduty
          cases hduty
      refine ⟨⟨hsame', ?_⟩,
        ⟨hranged.atTime, hranged.nextFire, hranged.interval⟩, ?_⟩
      · simp
      · rw [hsame.atTime] at hpast
        simp [htimes, hpast]
  | recurring =>
      simp only [htype] at hnext hregular hduty hafter ⊢
      cases hafter
      have hpast : job.nextFire ≤ now := by
        by_cases hat : 0 < readInt job.nextFire ∧ readInt job.nextFire ≤ now
        · exact readInt_past hranged.nextFire hat
        · rw [if_neg hat] at hduty
          cases hduty
      have hinterval := hranged.interval
      have hfire := hranged.nextFire
      refine ⟨⟨hsame', ?_⟩,
        ⟨hranged.atTime, ?_, hinterval⟩, ?_⟩
      · simp only [hnext, hsame.interval, List.length_append, List.length_singleton]
        push_cast
        ring
      · change 0 ≤ job.nextFire + job.interval ∧ job.nextFire + job.interval < 2 ^ 32
        omega
      · intro i t hi
        rcases getElem?_snoc hi with hold | ⟨rfl, rfl⟩
        · exact hregular i t hold
        · rwa [← hnext]
  | cron =>
      simp only [htype] at hnext hregular hduty hafter ⊢
      obtain ⟨next, hcalc, rfl⟩ := Option.map_eq_some_iff.mp hafter
      obtain ⟨hlater, hyear⟩ := calculateNextFire_range hcalc
      by_cases hat : job.cronExpr ≠ [] ∧ 0 < readInt job.nextFire ∧ readInt job.nextFire ≤ now
      · rw [if_pos hat] at hduty
        obtain ⟨matched, hmatched, hfire⟩ := Option.map_eq_some_iff.mp hduty
        have hpast := readInt_past hranged.nextFire hat.2
        refine ⟨⟨hsame', ?_⟩,
          ⟨hranged.atTime, ?_, hranged.interval⟩, ?_, ?_⟩
        · intro t ht
          change t / 60 < next / 60
          rcases List.mem_append.mp ht with ht | ht
          · have hbefore := hnext t ht
            omega
          · rw [List.mem_singleton.mp ht]
            exact hlater
        · change 0 ≤ next ∧ next < 2 ^ 32
          omega
        · refine List.pairwise_append.mpr ⟨hregular.1, List.pairwise_singleton _ _, ?_⟩
          intro t ht u hu
          have hbefore := hnext t ht
          rw [List.mem_singleton.mp hu]
          omega
        · intro t ht
          rcases List.mem_append.mp ht with ht | ht
          · exact hregular.2 t ht
          · rw [List.mem_singleton.mp ht, ← hsame.cronExpr, hmatched]
            cases matched with
            | true => rfl
            | false => cases hfire
      · rw [if_neg hat] at hduty
        cases hduty
  | other =>
      simp only [htype] at hduty
      cases hduty

/-! ## Runs -/

/-- Every check goes through all jobs and saves them. The clock stays within an `int`, and what is
asked for is not further away than an unsigned one. -/
def Saved (s : System) : Event → Prop
  | .tick seconds => s.clock + seconds < 2 ^ 31
  | .add r => r.everySeconds.floor < 2 ^ 31 ∧ ∀ t ∈ r.at?, t < 2 ^ 32
  | .next answer =>
      ∀ c ∈ s.checking, ∀ job ∈ c.todo.head?, (checkJob c.now answer job).left = false
  | _ => True

/-- A list of jobs stands as the log has it. -/
structure System.Stands (s : System) (jobs : List Job) : Prop where
  nodup : (jobs.map Job.uid).Nodup
  current : ∀ job ∈ jobs, job.Ranged ∧
    ∃ born, s.born[job.uid]? = some born ∧ born.Current job (handledAt s.log job.uid)

structure System.Sound (s : System) : Prop where
  clock : 0 ≤ s.clock ∧ s.clock < 2 ^ 31
  born : ∀ (i : Nat) (job : Job), s.born[i]? = some job → job.uid = i
  logged : ∀ entry ∈ s.log, entry.1 < s.born.length
  regular : ∀ job ∈ s.born, Regular job (handledAt s.log job.uid)
  /-- What a check will overwrite need not stand. -/
  file : (∀ c ∈ s.checking, c.modified = false) → s.Stands (s.file.getD [])
  checking : ∀ c ∈ s.checking, (0 ≤ c.now ∧ c.now < 2 ^ 31) ∧ s.Stands (c.done ++ c.todo)

theorem System.Stands.sublist {s : System} {jobs jobs' : List Job} (h : s.Stands jobs)
    (hsub : jobs'.Sublist jobs) : s.Stands jobs' :=
  ⟨h.nodup.sublist (hsub.map _), fun job hjob => h.current job (hsub.subset hjob)⟩

/-- Jobs that are added later are in nobody's way. -/
theorem System.Stands.grow {s s' : System} {jobs : List Job} (h : s.Stands jobs)
    (hlog : s'.log = s.log) {more : List Job} (hborn : s'.born = s.born ++ more) :
    s'.Stands jobs := by
  refine ⟨h.nodup, fun job hjob => ?_⟩
  obtain ⟨hranged, born, hget, hcurrent⟩ := h.current job hjob
  refine ⟨hranged, born, ?_, ?_⟩
  · rw [hborn, List.getElem?_append_left (List.getElem?_eq_some_iff.mp hget).1, hget]
  · rw [hlog]
    exact hcurrent

/-- One job changes, and the log of no other. -/
theorem System.Stands.replace {s s' : System} {done rest : List Job} {job job' : Job}
    (h : s.Stands (done ++ job :: rest)) (hborn : s'.born = s.born)
    (hlog : ∀ uid, uid ≠ job.uid → handledAt s'.log uid = handledAt s.log uid)
    (huid : job'.uid = job.uid) (hranged : job'.Ranged)
    (hcurrent : ∀ born, s.born[job.uid]? = some born →
      born.Current job (handledAt s.log job.uid) → born.Current job' (handledAt s'.log job.uid)) :
    s'.Stands (done ++ job' :: rest) := by
  have hnodup := h.nodup
  rw [List.map_append, List.map_cons] at hnodup
  refine ⟨by rwa [List.map_append, List.map_cons, huid], fun other hother => ?_⟩
  rw [hborn]
  have hkeep : other ∈ done ++ job :: rest → other.uid ≠ job.uid → other.Ranged ∧
      ∃ born, s.born[other.uid]? = some born ∧
        born.Current other (handledAt s'.log other.uid) := by
    intro hmem hne
    obtain ⟨hranged, born, hget, hold⟩ := h.current other hmem
    exact ⟨hranged, born, hget, by rwa [hlog _ hne]⟩
  obtain ⟨-, hrest, hdisjoint⟩ := List.nodup_append.mp hnodup
  rcases List.mem_append.mp hother with hdone | hother
  · exact hkeep (List.mem_append_left _ hdone) fun heq =>
      hdisjoint _ (List.mem_map_of_mem hdone) _ List.mem_cons_self heq
  · rcases List.mem_cons.mp hother with rfl | hmem
    · obtain ⟨-, born, hget, hold⟩ := h.current job (by simp)
      rw [huid]
      exact ⟨hranged, born, hget, hcurrent born hget hold⟩
    · refine hkeep (List.mem_append_right _ (List.mem_cons_of_mem _ hmem)) fun heq => ?_
      exact (List.nodup_cons.mp hrest).1 (heq ▸ List.mem_map_of_mem hmem)

/-- What the tool adds has not been done yet. -/
theorem newJob_spec {now : Int} {uid : Nat} {r : Request} {job : Job}
    (h : newJob now uid r = some job) (hnow : 0 ≤ now ∧ now < 2 ^ 31)
    (hsmall : r.everySeconds.floor < 2 ^ 31 ∧ ∀ t ∈ r.at?, t < 2 ^ 32) :
    job.uid = uid ∧ job.Ranged ∧ Regular job [] ∧ job.Current job [] := by
  have hidle : ∀ job : Job, job.everySeconds = 0 → job.interval = 60 := by
    intro job hzero
    rw [Job.interval, hzero, if_pos le_rfl]
    rfl
  unfold newJob at h
  simp only at h
  split at h
  · rename_i hevery
    cases h
    have hfloor : 0 ≤ r.everySeconds.floor := Rat.le_floor_iff.mpr (by exact_mod_cast hevery.le)
    have hinterval : ∀ job : Job, job.everySeconds = r.everySeconds →
        job.interval = r.everySeconds.floor := by
      intro job heq
      rw [Job.interval, heq, if_neg (not_le.mpr hevery)]
    refine ⟨rfl, ⟨by simp, ?_, ?_⟩, by simp [Regular],
      ⟨⟨rfl, rfl, rfl, rfl, rfl⟩, by simp⟩⟩
    · simp only
      omega
    · rw [hinterval _ rfl]
      exact ⟨hfloor, hsmall.1⟩
  · split at h
    · rename_i target hat
      split at h
      · cases h
      · rename_i hlater
        cases h
        have htarget := hsmall.2 target hat
        refine ⟨rfl, ⟨?_, ?_, ?_⟩, by simp [Regular], ⟨⟨rfl, rfl, rfl, rfl, rfl⟩, by simp⟩⟩
        · simp only
          omega
        · simp only
          omega
        · rw [hidle _ rfl]
          decide
    · split at h
      · cases h
      · obtain ⟨next, hcalc, rfl⟩ := Option.map_eq_some_iff.mp h
        have hrange := calculateNextFire_range hcalc
        refine ⟨rfl, ⟨by simp, ?_, ?_⟩, by simp [Regular],
          ⟨⟨rfl, rfl, rfl, rfl, rfl⟩, by simp⟩⟩
        · simp only
          omega
        · rw [hidle _ rfl]
          decide

theorem System.Sound.add {s : System} (h : s.Sound) {r : Request}
    (hsaved : Saved s (.add r)) {job : Job} (hjob : newJob s.clock s.born.length r = some job) :
    System.Sound { s with file := some (s.file.getD [] ++ [job]), born := s.born ++ [job] } := by
  obtain ⟨huid, hranged, hregular, hcurrent⟩ := newJob_spec hjob h.clock hsaved
  have hnone : handledAt s.log job.uid = [] := by
    rw [huid]
    exact handledAt_nil h.logged
  refine ⟨h.clock, ?_, ?_, ?_, ?_, ?_⟩
  · intro i other hget
    rcases getElem?_snoc hget with hold | ⟨rfl, rfl⟩
    · exact h.born i other hold
    · exact huid
  · intro entry hentry
    have hlt := h.logged entry hentry
    rw [List.length_append]
    exact Nat.lt_add_right _ hlt
  · intro other hother
    rcases List.mem_append.mp hother with hold | hnew
    · exact h.regular other hold
    · rw [List.mem_singleton.mp hnew]
      change Regular job (handledAt s.log job.uid)
      rwa [hnone]
  · intro hfile
    let grown : System := { s with
      file := some (s.file.getD [] ++ [job]), born := s.born ++ [job] }
    have hold : grown.Stands _ := (h.file hfile).grow rfl rfl
    constructor
    · rw [Option.getD_some, List.map_append, List.nodup_append]
      refine ⟨hold.nodup, by simp, ?_⟩
      intro uid hmem uid' hmem'
      obtain ⟨other, hother, rfl⟩ := List.mem_map.mp hmem
      obtain ⟨-, born, hget, -⟩ := (h.file hfile).current other hother
      have hlt := (List.getElem?_eq_some_iff.mp hget).1
      simp only [List.map_cons, List.map_nil, List.mem_singleton] at hmem'
      omega
    · intro other hother
      rcases List.mem_append.mp hother with hmem | hnew
      · exact hold.current other hmem
      · rw [List.mem_singleton.mp hnew, hnone, huid]
        exact ⟨hranged, job, List.getElem?_concat_length, hcurrent⟩
  · intro c hc
    obtain ⟨hnow, hstands⟩ := h.checking c hc
    exact ⟨hnow, hstands.grow rfl rfl⟩

theorem System.Sound.remove {s : System} (h : s.Sound) (jobId : Str) :
    (s.remove jobId).Sound := by
  unfold System.remove
  split
  · exact h
  · rename_i jobs hjobs
    split
    · simp only
      refine ⟨h.clock, h.born, h.logged, h.regular, fun hfile => ?_, fun c hc => ?_⟩
      · have hstands := h.file hfile
        rw [hjobs, Option.getD_some] at hstands
        have hleft := hstands.sublist (remove_sublist jobId jobs)
        simp only
        split
        · rename_i hnone
          rw [hnone] at hleft
          exact ⟨hleft.nodup, hleft.current⟩
        · exact ⟨hleft.nodup, hleft.current⟩
      · obtain ⟨hnow, hstands⟩ := h.checking c hc
        exact ⟨hnow, hstands.nodup, hstands.current⟩
    · exact h

theorem System.Sound.finish {s : System} (h : s.Sound) {c : Check} (hc : s.checking = some c)
    (htodo : c.todo = []) : (s.finish c).Sound := by
  have hstands := (h.checking c hc).2
  rw [htodo, List.append_nil] at hstands
  unfold System.finish
  simp only
  split
  · refine ⟨h.clock, h.born, h.logged, h.regular, fun _ => ?_, by simp⟩
    have hleft := hstands.sublist (List.filter_sublist (p := fun job : Job => !job.deleted))
    exact ⟨hleft.nodup, hleft.current⟩
  · rename_i hsame
    rw [not_or, Bool.not_eq_true] at hsame
    refine ⟨h.clock, h.born, h.logged, h.regular, fun _ => ?_, by simp⟩
    have hfile : s.Stands (s.file.getD []) := by
      refine h.file fun c' hc' => ?_
      rw [hc] at hc'
      cases hc'
      exact hsame.1
    exact ⟨hfile.nodup, hfile.current⟩

/-- The job was done. -/
theorem System.Sound.handled {s : System} (h : s.Sound) {c : Check} {job : Job} {rest : List Job}
    (hc : s.checking = some c) (htodo : c.todo = job :: rest) {checked : Checked}
    (hremoved : job.removed = false) (hduty : job.duty c.now = some .fire)
    (hmodified : checked.modified = true) (hhandled : checked.handled = true)
    (hafter : job.afterwards c.now = some checked.job) :
    (s.advance c job rest checked).Sound := by
  obtain ⟨hnow, hstands⟩ := h.checking c hc
  rw [htodo] at hstands
  obtain ⟨hranged, born, hget, hcurrent⟩ := hstands.current job (by simp)
  have hborn := List.mem_of_getElem? hget
  have huid : born.uid = job.uid := hcurrent.same.uid.symm
  have hsplit : c.done ++ [checked.job] ++ rest = c.done ++ checked.job :: rest := by
    rw [List.append_assoc, List.singleton_append]
  have hregular : Regular born (handledAt s.log job.uid) := huid ▸ h.regular born hborn
  obtain ⟨hcurrent', hranged', hregular'⟩ :=
    hcurrent.afterwards hranged hregular hnow hremoved hduty hafter
  simp only [System.advance, hmodified, hhandled, Bool.or_true, if_true]
  refine ⟨h.clock, h.born, ?_, ?_, fun hfile => ?_, ?_⟩
  · intro entry hentry
    rcases List.mem_append.mp hentry with hold | hentry
    · exact h.logged entry hold
    · rw [List.mem_singleton.mp hentry]
      exact (List.getElem?_eq_some_iff.mp hget).1
  · intro other hother
    rw [handledAt_snoc]
    split
    · rename_i heq
      obtain ⟨i, hi⟩ := List.mem_iff_getElem?.mp hother
      have hother' : s.born[other.uid]? = some other := by
        rw [h.born i other hi]
        exact hi
      rw [heq, hget] at hother'
      cases hother'
      rw [heq]
      exact hregular'
    · exact h.regular other hother
  · cases hfile _ rfl
  · rintro c' ⟨⟩
    refine ⟨hnow, ?_⟩
    rw [hsplit]
    refine hstands.replace rfl ?_ ?_ hranged' ?_
    · intro uid hne
      rw [handledAt_snoc, if_neg hne]
    · exact (Job.afterwards_same hafter).uid
    · intro born' hget' _
      rw [hget] at hget'
      cases hget'
      rw [handledAt_snoc, if_pos rfl]
      exact hcurrent'

theorem System.Sound.advance {s : System} (h : s.Sound) {c : Check} {job : Job} {rest : List Job}
    (hc : s.checking = some c) (htodo : c.todo = job :: rest) {answer : Answer}
    (hleft : (checkJob c.now answer job).left = false) :
    (s.advance c job rest (checkJob c.now answer job)).Sound := by
  obtain ⟨hnow, hstands⟩ := h.checking c hc
  rw [htodo] at hstands
  obtain ⟨hranged, born, hget, hcurrent⟩ := hstands.current job (by simp)
  have hsplit : ∀ job' : Job, c.done ++ [job'] ++ rest = c.done ++ job' :: rest := by
    intro job'
    rw [List.append_assoc, List.singleton_append]
  have hcases := checkJob_cases c.now answer job
  generalize checkJob c.now answer job = checked at hleft hcases
  simp only at hcases
  rcases hcases with ⟨hjob, hmodified, hhandled⟩ |
    ⟨htype, hpast, hmodified, hhandled, next, hnext, hjob⟩ | ⟨hremoved, hduty, hhandled, hafter⟩
  · -- nothing has happened to the job
    simp only [System.advance, hjob, hmodified, hhandled, Bool.or_false, Bool.false_eq_true,
      if_false]
    refine ⟨h.clock, h.born, h.logged, h.regular, fun hfile => ?_, ?_⟩
    · have hold := h.file fun c' hc' => by
        rw [hc] at hc'
        cases hc'
        have hsame := hfile _ rfl
        exact hsame
      exact ⟨hold.nodup, hold.current⟩
    · rintro c' ⟨⟩
      refine ⟨hnow, ?_⟩
      rw [hsplit]
      exact ⟨hstands.nodup, hstands.current⟩
  · -- its time has passed without a match
    simp only [System.advance, hjob, hmodified, hhandled, Bool.or_true, Bool.false_eq_true,
      if_false]
    refine ⟨h.clock, h.born, h.logged, h.regular, fun hfile => ?_, ?_⟩
    · cases hfile _ rfl
    · rintro c' ⟨⟩
      refine ⟨hnow, ?_⟩
      rw [hsplit]
      have hrange := calculateNextFire_range hnext
      have hlate := readInt_past hranged.nextFire hpast
      refine hstands.replace rfl (fun uid _ => rfl) rfl
        ⟨hranged.atTime, ?_, hranged.interval⟩ ?_
      · simp only
        omega
      · intro born' _ hold
        refine ⟨⟨hold.same.uid, hold.same.type, hold.same.atTime, hold.same.everySeconds,
          hold.same.cronExpr⟩, ?_⟩
        have hbefore := hold.next
        simp only [htype] at hbefore ⊢
        intro t ht
        have hlt := hbefore t ht
        omega
  · -- the job was done
    rcases hafter with ⟨hcut, -⟩ | ⟨hmodified, hafter⟩
    · rw [hcut] at hleft
      cases hleft
    · exact h.handled hc htodo hremoved hduty hmodified hhandled hafter

theorem System.Sound.step {s s' : System} (h : s.Sound) {event : Event} (hsaved : Saved s event)
    (hstep : CronWatcher.step s event = some s') : s'.Sound := by
  cases event with
  | tick seconds =>
      cases hstep
      have hclock := h.clock
      refine ⟨⟨?_, hsaved⟩, h.born, h.logged, h.regular, fun hfile => ?_, fun c hc => ?_⟩
      · simp only
        omega
      · have hstands := h.file hfile
        exact ⟨hstands.nodup, hstands.current⟩
      · obtain ⟨hnow, hstands⟩ := h.checking c hc
        exact ⟨hnow, hstands.nodup, hstands.current⟩
  | add r =>
      rw [CronWatcher.step] at hstep
      split at hstep
      · cases hstep
        exact h
      · rename_i job hjob
        cases hstep
        exact h.add hsaved hjob
  | remove jobId =>
      cases hstep
      exact h.remove jobId
  | begin =>
      rw [CronWatcher.step] at hstep
      split at hstep
      · rename_i jobs hchecking hfile
        cases hstep
        have hstands := h.file (by simp [hchecking])
        rw [hfile, Option.getD_some] at hstands
        refine ⟨h.clock, h.born, h.logged, h.regular, fun _ => ?_, ?_⟩
        · simp only [hfile, Option.getD_some]
          exact ⟨hstands.nodup, hstands.current⟩
        · rintro c' ⟨⟩
          exact ⟨h.clock, hstands.nodup, hstands.current⟩
      · cases hstep
        exact h
      · cases hstep
  | next answer =>
      rw [CronWatcher.step] at hstep
      split at hstep
      · rename_i now done job rest modified hc
        have hleft := hsaved _ hc job rfl
        have hnext := h.advance hc rfl hleft
        simp only [hleft, Bool.false_eq_true, if_false] at hstep
        cases hstep
        exact hnext
      · cases hstep
  | finish =>
      rw [CronWatcher.step] at hstep
      split at hstep
      · rename_i c hc
        obtain ⟨htodo, heq⟩ := Option.ite_none_right_eq_some.mp hstep
        cases heq
        exact h.finish hc htodo
      · cases hstep

instance (s : System) : (event : Event) → Decidable (Saved s event)
  | .tick seconds => inferInstanceAs (Decidable (s.clock + seconds < 2 ^ 31))
  | .add r =>
      inferInstanceAs (Decidable (r.everySeconds.floor < 2 ^ 31 ∧ ∀ t ∈ r.at?, t < 2 ^ 32))
  | .next answer =>
      inferInstanceAs (Decidable (∀ c ∈ s.checking, ∀ job ∈ c.todo.head?,
        (checkJob c.now answer job).left = false))
  | .remove _ | .begin | .finish => inferInstanceAs (Decidable True)

end JiuwenCore.CronWatcher
