import JiuwenCore.Cron.Jobs

/-!
# Sleeping until the next job

Between two checks the watcher sleeps until the earliest of the times its jobs come to next, and
no longer than its interval. A recurring job that is late is moved forward by its intervals.
-/

namespace JiuwenCore.CronWatcher

/-- The loop that moves a time behind now; `none` where it does not come to an end. -/
def moveForward (now interval : Int) : (fuel : Nat) → Int → Option Int
  | 0, _ => none
  | fuel + 1, actualNext =>
      if actualNext ≤ now then moveForward now interval fuel (actualNext + interval)
      else some actualNext

/-- What a job adds to the search for the earliest time. -/
inductive Upcoming where
  | skip
  | time (t : Int)
  | throws
  | hangs
  deriving DecidableEq, Repr

def Job.upcoming (now : Int) (job : Job) : Upcoming :=
  if job.removed ∨ job.fired ∧ job.type = .oneTime then .skip
  else
    let next := readInt job.nextFire
    match job.type with
    | .oneTime => if now < next then .time next else .skip
    | .recurring =>
        if 0 < next then
          if next ≤ now then
            match moveForward now job.interval ((now - next).toNat + 2) next with
            | some actualNext => .time actualNext
            | none => .hangs
          else .time next
        else .skip
    | .cron =>
        if job.cronExpr ≠ [] ∧ 0 < next then
          if next ≤ now then
            match calculateNextFire job.cronExpr now with
            | some actualNext => .time actualNext
            | none => .throws
          else .time next
        else .skip
    | .other => .skip

/-- The loop over the jobs, with 0 for no time found yet. The first `none` stands for a loop that
does not end, the second one for an exception. -/
def earliestNext (now : Int) : Int → List Job → Option (Option Int)
  | earliest, [] => some (some earliest)
  | earliest, job :: rest =>
      match job.upcoming now with
      | .skip => earliestNext now earliest rest
      | .time t => earliestNext now (if earliest = 0 ∨ t < earliest then t else earliest) rest
      | .throws => some none
      | .hangs => none

/-- `CalculateSleepDuration`, `none` where it does not return. -/
def calculateSleepDuration (now intervalSeconds : Int) (file : Option (List Job)) : Option Int :=
  match file with
  | none | some [] => some intervalSeconds
  | some jobs =>
      (earliestNext now 0 jobs).map fun found =>
        match found with
        | some earliest =>
            if now < earliest then min intervalSeconds (earliest - now) else intervalSeconds
        | none => intervalSeconds

/-! ## Moving forward -/

/-- An interval of no whole second never leads behind now, however long the loop goes on. -/
theorem moveForward_stuck {now actualNext : Int} (h : actualNext ≤ now) (fuel : Nat) :
    moveForward now 0 fuel actualNext = none := by
  induction fuel with
  | zero => rfl
  | succ fuel ih => rw [moveForward, if_pos h, Int.add_zero, ih]

/-- The times that a recurring job goes through, behind now. -/
def Ahead (now first interval : Int) : Set Int := {t | now < t ∧ ∃ k : Nat, t = first + k * interval}

/-- A time that is not ahead can be left out. -/
theorem ahead_next {now first : Int} (h : first ≤ now) (interval : Int) :
    Ahead now first interval = Ahead now (first + interval) interval := by
  ext t
  constructor
  · rintro ⟨hlater, k, rfl⟩
    cases k with
    | zero => omega
    | succ k =>
        refine ⟨hlater, k, ?_⟩
        push_cast
        ring
  · rintro ⟨hlater, k, rfl⟩
    refine ⟨hlater, k + 1, ?_⟩
    push_cast
    ring

/-- With an interval of seconds the loop ends at the first of them. -/
theorem moveForward_least {now interval : Int} (hinterval : 0 < interval) {fuel : Nat}
    {first : Int} (hfuel : (now + 1 - first).toNat < fuel) :
    ∃ t, moveForward now interval fuel first = some t ∧ IsLeast (Ahead now first interval) t := by
  induction fuel generalizing first with
  | zero => omega
  | succ fuel ih =>
      rw [moveForward]
      split
      · rename_i hlate
        rw [ahead_next hlate]
        exact ih (by omega)
      · rename_i hahead
        refine ⟨first, rfl, ⟨by omega, 0, by simp⟩, ?_⟩
        rintro t ⟨-, k, rfl⟩
        have hsum : 0 ≤ (k : Int) * interval := Int.mul_nonneg (by omega) hinterval.le
        omega

/-! ## The earliest time -/

/-- The job is neither removed nor a one-time job that has been fired. -/
def Job.Active (job : Job) : Prop := ¬ (job.removed = true ∨ job.fired = true ∧ job.type = .oneTime)

/-- The time that a job comes to next. -/
def Job.ComesTo (now : Int) (job : Job) (t : Int) : Prop :=
  let next := readInt job.nextFire
  job.Active ∧
    match job.type with
    | .oneTime => now < next ∧ t = next
    | .recurring => 0 < next ∧ IsLeast (Ahead now next job.interval) t
    | .cron =>
        job.cronExpr ≠ [] ∧ 0 < next ∧
          (now < next ∧ t = next ∨ next ≤ now ∧ calculateNextFire job.cronExpr now = some t)
    | .other => False

/-- A recurring job with an interval below a second, once it is late. -/
def Job.Stuck (now : Int) (job : Job) : Prop :=
  job.removed = false ∧ job.type = .recurring ∧ 0 < job.everySeconds ∧ job.everySeconds < 1 ∧
    0 < readInt job.nextFire ∧ readInt job.nextFire ≤ now

/-- The expression of a cron job that is late can be read. -/
def Job.Readable (now : Int) (job : Job) : Prop :=
  job.type = .cron → readInt job.nextFire ≤ now → (calculateNextFire job.cronExpr now).isSome

theorem interval_cases (job : Job) :
    0 < job.interval ∧ ¬ (0 < job.everySeconds ∧ job.everySeconds < 1) ∨
      job.interval = 0 ∧ 0 < job.everySeconds ∧ job.everySeconds < 1 := by
  unfold Job.interval
  split
  · rename_i hnone
    exact Or.inl ⟨by decide, fun h => absurd h.1 (not_lt.mpr hnone)⟩
  · rename_i hpos
    rw [not_le] at hpos
    by_cases hone : 1 ≤ job.everySeconds
    · have hfloor : 1 ≤ job.everySeconds.floor := Rat.le_floor_iff.mpr (by exact_mod_cast hone)
      exact Or.inl ⟨by omega, fun h => absurd h.2 (not_lt.mpr hone)⟩
    · rw [not_le] at hone
      refine Or.inr ⟨?_, hpos, hone⟩
      have hlow : 0 ≤ job.everySeconds.floor := Rat.le_floor_iff.mpr (by exact_mod_cast hpos.le)
      have hhigh : job.everySeconds.floor < 1 := Rat.floor_lt_iff.mpr (by exact_mod_cast hone)
      omega

/-- A job comes to its next time, comes to none, or keeps the search from coming to an end. -/
theorem upcoming_spec {now : Int} {job : Job} (hread : job.Readable now) :
    ((∃ t, job.upcoming now = .time t ∧ job.ComesTo now t) ∧ ¬ job.Stuck now) ∨
      ((job.upcoming now = .skip ∧ ∀ t, ¬ job.ComesTo now t) ∧ ¬ job.Stuck now) ∨
      job.upcoming now = .hangs ∧ job.Stuck now := by
  unfold Job.upcoming Job.ComesTo
  by_cases hactive : job.removed = true ∨ job.fired = true ∧ job.type = .oneTime
  · refine Or.inr (Or.inl ⟨⟨if_pos hactive, fun t h => h.1 hactive⟩, ?_⟩)
    rintro ⟨hremoved, htype, -⟩
    rcases hactive with h | ⟨-, h⟩
    · rw [hremoved] at h
      cases h
    · rw [htype] at h
      cases h
  · have hremoved : job.removed = false := by
      rw [not_or, Bool.not_eq_true] at hactive
      exact hactive.1
    have hother : job.type ≠ .recurring → ¬ job.Stuck now := fun hne hstuck => hne hstuck.2.1
    rw [if_neg hactive]
    cases htype : job.type with
    | oneTime =>
        have hfree := hother (by simp [htype])
        by_cases hahead : now < readInt job.nextFire
        · exact Or.inl ⟨⟨_, if_pos hahead, hactive, hahead, rfl⟩, hfree⟩
        · exact Or.inr (Or.inl ⟨⟨if_neg hahead, fun t h => hahead h.2.1⟩, hfree⟩)
    | recurring =>
        simp only
        by_cases hset : 0 < readInt job.nextFire
        · rw [if_pos hset]
          by_cases hlate : readInt job.nextFire ≤ now
          · rw [if_pos hlate]
            rcases interval_cases job with ⟨hpos, hwhole⟩ | ⟨hzero, hevery, hsmall⟩
            · have hfuel : (now + 1 - readInt job.nextFire).toNat <
                  (now - readInt job.nextFire).toNat + 2 := by
                omega
              obtain ⟨t, ht, hleast⟩ := moveForward_least hpos hfuel
              refine Or.inl ⟨⟨t, by rw [ht], hactive, hset, hleast⟩, fun hstuck => ?_⟩
              exact hwhole ⟨hstuck.2.2.1, hstuck.2.2.2.1⟩
            · refine Or.inr (Or.inr ⟨?_, hremoved, htype, hevery, hsmall, hset, hlate⟩)
              rw [hzero, moveForward_stuck hlate]
          · rw [if_neg hlate]
            refine Or.inl ⟨⟨_, rfl, hactive, hset, ⟨by omega, 0, by simp⟩, ?_⟩, ?_⟩
            · rintro t ⟨-, k, rfl⟩
              have hinterval : 0 ≤ job.interval := by
                rcases interval_cases job with h | h <;> omega
              have hsum : 0 ≤ (k : Int) * job.interval := Int.mul_nonneg (by omega) hinterval
              omega
            · exact fun hstuck => hlate hstuck.2.2.2.2.2
        · rw [if_neg hset]
          refine Or.inr (Or.inl ⟨⟨rfl, fun t h => hset h.2.1⟩, fun hstuck => ?_⟩)
          exact hset hstuck.2.2.2.2.1
    | cron =>
        have hfree := hother (by simp [htype])
        simp only
        by_cases hset : job.cronExpr ≠ [] ∧ 0 < readInt job.nextFire
        · rw [if_pos hset]
          by_cases hlate : readInt job.nextFire ≤ now
          · rw [if_pos hlate]
            obtain ⟨t, ht⟩ := Option.isSome_iff_exists.mp (hread htype hlate)
            refine Or.inl ⟨⟨t, by rw [ht], hactive, hset.1, hset.2, Or.inr ⟨hlate, ht⟩⟩, hfree⟩
          · rw [if_neg hlate]
            exact Or.inl ⟨⟨_, rfl, hactive, hset.1, hset.2, Or.inl ⟨by omega, rfl⟩⟩, hfree⟩
        · rw [if_neg hset]
          exact Or.inr (Or.inl ⟨⟨rfl, fun t h => hset ⟨h.2.1, h.2.2.1⟩⟩, hfree⟩)
    | other => exact Or.inr (Or.inl ⟨⟨rfl, fun t h => h.2⟩, hother (by simp [htype])⟩)

theorem Job.ComesTo.ahead {now : Int} {job : Job} {t : Int} (h : job.ComesTo now t) : now < t := by
  obtain ⟨-, h⟩ := h
  split at h
  · omega
  · exact h.2.1.1
  · rcases h.2.2 with ⟨hahead, rfl⟩ | ⟨-, hnext⟩
    · exact hahead
    · have hrange := calculateNextFire_range hnext
      omega
  · exact h.elim

/-- A time that was found before, and those of the jobs that are still to come. -/
def Candidates (now earliest : Int) (jobs : List Job) : Set Int :=
  {t | earliest ≠ 0 ∧ t = earliest ∨ ∃ job ∈ jobs, job.ComesTo now t}

theorem Job.ComesTo.unique {now : Int} {job : Job} {t u : Int} (ht : job.ComesTo now t)
    (hu : job.ComesTo now u) : t = u := by
  unfold Job.ComesTo at ht hu
  cases htype : job.type with
  | oneTime =>
      simp only [htype] at ht hu
      exact ht.2.2.trans hu.2.2.symm
  | recurring =>
      simp only [htype] at ht hu
      exact ht.2.2.unique hu.2.2
  | cron =>
      simp only [htype] at ht hu
      rcases ht.2.2.2 with ⟨hahead, rfl⟩ | ⟨hlate, hnext⟩
      · rcases hu.2.2.2 with ⟨-, rfl⟩ | ⟨hlate, -⟩
        · rfl
        · omega
      · rcases hu.2.2.2 with ⟨hahead, -⟩ | ⟨-, hnext'⟩
        · omega
        · exact Option.some.inj (hnext.symm.trans hnext')
  | other =>
      simp only [htype] at ht
      exact ht.2.elim

theorem candidates_skip {now : Int} {job : Job} (h : ∀ t, ¬ job.ComesTo now t) (earliest : Int)
    (rest : List Job) : Candidates now earliest (job :: rest) = Candidates now earliest rest := by
  ext t
  simp [Candidates, h]

/-- A time that comes in becomes the earliest one, or leaves it as it is. -/
theorem candidates_time {now : Int} {job : Job} {t : Int} (ht : job.ComesTo now t)
    {earliest earlier : Int} (hearlier : earlier ≠ 0)
    (heq : earlier = if earliest = 0 ∨ t < earliest then t else earliest) {rest : List Job} {r : Int}
    (h : IsLeast (Candidates now earlier rest) r) :
    IsLeast (Candidates now earliest (job :: rest)) r := by
  obtain ⟨hmem, hleast⟩ := h
  have hle : r ≤ earlier := hleast (Or.inl ⟨hearlier, rfl⟩)
  refine ⟨?_, ?_⟩
  · rcases hmem with ⟨-, rfl⟩ | ⟨other, hother, hcomes⟩
    · rw [heq]
      split
      · exact Or.inr ⟨job, List.mem_cons_self, ht⟩
      · rename_i hkept
        exact Or.inl ⟨fun hzero => hkept (Or.inl hzero), rfl⟩
    · exact Or.inr ⟨other, List.mem_cons_of_mem _ hother, hcomes⟩
  · rintro u (⟨hset, rfl⟩ | ⟨other, hother, hcomes⟩)
    · split at heq <;> omega
    · rcases List.mem_cons.mp hother with rfl | hother
      · rw [hcomes.unique ht]
        split at heq <;> omega
      · exact hleast (Or.inr ⟨other, hother, hcomes⟩)

theorem earliestNext_spec {now : Int} (hnow : 0 ≤ now) {jobs : List Job}
    (hread : ∀ job ∈ jobs, job.Readable now) (earliest : Int) :
    ((∃ job ∈ jobs, job.Stuck now) ∧ earliestNext now earliest jobs = none) ∨
      ((∀ job ∈ jobs, ¬ job.Stuck now) ∧ ∃ r, earliestNext now earliest jobs = some (some r) ∧
        (r = 0 ∧ Candidates now earliest jobs = ∅ ∨
          IsLeast (Candidates now earliest jobs) r)) := by
  induction jobs generalizing earliest with
  | nil =>
      refine Or.inr ⟨by simp, earliest, rfl, ?_⟩
      by_cases hzero : earliest = 0
      · exact Or.inl ⟨hzero, by simp [Candidates, hzero]⟩
      · refine Or.inr ⟨Or.inl ⟨hzero, rfl⟩, ?_⟩
        rintro t (⟨-, rfl⟩ | ⟨job, hjob, -⟩)
        · exact le_rfl
        · cases hjob
  | cons job rest ih =>
      have hrest : ∀ other ∈ rest, other.Readable now :=
        fun other hother => hread other (List.mem_cons_of_mem _ hother)
      rw [earliestNext]
      rcases upcoming_spec (hread job List.mem_cons_self) with ⟨⟨t, hup, ht⟩, hfree⟩ |
        ⟨⟨hup, hnone⟩, hfree⟩ | ⟨hup, hstuck⟩
      · rw [hup]
        simp only
        generalize heq : (if earliest = 0 ∨ t < earliest then t else earliest) = earlier
        have hahead := ht.ahead
        have hearlier : earlier ≠ 0 := by
          split at heq <;> omega
        rcases ih hrest earlier with ⟨⟨other, hother, hstuck⟩, hhangs⟩ | ⟨hfine, r, hr, hleast⟩
        · exact Or.inl ⟨⟨other, List.mem_cons_of_mem _ hother, hstuck⟩, hhangs⟩
        · refine Or.inr ⟨List.forall_mem_cons.mpr ⟨hfree, hfine⟩, r, hr, ?_⟩
          rcases hleast with ⟨-, hempty⟩ | hleast
          · have hmem : earlier ∈ Candidates now earlier rest := Or.inl ⟨hearlier, rfl⟩
            rw [hempty] at hmem
            exact hmem.elim
          · exact Or.inr (candidates_time ht hearlier heq.symm hleast)
      · rw [hup, candidates_skip hnone]
        rcases ih hrest earliest with ⟨⟨other, hother, hstuck⟩, hhangs⟩ | ⟨hfine, hfound⟩
        · exact Or.inl ⟨⟨other, List.mem_cons_of_mem _ hother, hstuck⟩, hhangs⟩
        · exact Or.inr ⟨List.forall_mem_cons.mpr ⟨hfree, hfine⟩, hfound⟩
      · rw [hup]
        exact Or.inl ⟨⟨job, List.mem_cons_self, hstuck⟩, rfl⟩

/-- The watcher sleeps until the first of the times its jobs come to, or for its interval if that
is shorter; it does so exactly when no recurring job with an interval below a second is late, and
else searches forever. -/
theorem calculateSleepDuration_spec {now : Int} (hnow : 0 ≤ now) (intervalSeconds : Int)
    {jobs : List Job} (hread : ∀ job ∈ jobs, job.Readable now) :
    (calculateSleepDuration now intervalSeconds (some jobs) = none ↔ ∃ job ∈ jobs, job.Stuck now) ∧
      ∀ d, calculateSleepDuration now intervalSeconds (some jobs) = some d →
        IsLeast {d | d = intervalSeconds ∨ ∃ job ∈ jobs, job.ComesTo now (now + d)} d := by
  have hcalc : calculateSleepDuration now intervalSeconds (some jobs) =
      (earliestNext now 0 jobs).map fun found =>
        match found with
        | some earliest =>
            if now < earliest then min intervalSeconds (earliest - now) else intervalSeconds
        | none => intervalSeconds := by
    cases jobs with
    | nil =>
        have hlt : ¬ now < 0 := by omega
        simp [calculateSleepDuration, earliestNext, hlt]
    | cons job rest => rfl
  rw [hcalc]
  rcases earliestNext_spec hnow hread 0 with ⟨hstuck, hhangs⟩ | ⟨hfine, r, hr, hleast⟩
  · rw [hhangs]
    exact ⟨by simpa using hstuck, by simp⟩
  · rw [hr]
    refine ⟨by simpa using hfine, ?_⟩
    rintro d hd
    rw [Option.map_some, Option.some.injEq] at hd
    simp only at hd
    rcases hleast with ⟨rfl, hempty⟩ | ⟨hmem, hlow⟩
    · -- no job comes to a time
      rw [if_neg (by omega)] at hd
      subst hd
      refine ⟨Or.inl rfl, ?_⟩
      rintro d (rfl | ⟨job, hjob, hcomes⟩)
      · exact le_rfl
      · have hmem : now + d ∈ Candidates now 0 jobs := Or.inr ⟨job, hjob, hcomes⟩
        rw [hempty] at hmem
        exact hmem.elim
    · rcases hmem with ⟨hzero, -⟩ | ⟨job, hjob, hcomes⟩
      · exact absurd rfl hzero
      · rw [if_pos hcomes.ahead] at hd
        refine ⟨?_, ?_⟩
        · by_cases hshort : intervalSeconds ≤ r - now
          · exact Or.inl (by omega)
          · refine Or.inr ⟨job, hjob, ?_⟩
            have hr' : now + d = r := by omega
            rwa [hr']
        · rintro d' (rfl | ⟨other, hother, hcomes'⟩)
          · omega
          · have hle := hlow (Or.inr ⟨other, hother, hcomes'⟩)
            omega

/-- A job for every minute that is late, and one for every half second that is not yet. -/
def demoJobs : List Job :=
  [{ uid := 0, id := [], message := [], type := .recurring, nextFire := 100, everySeconds := 60 },
    { uid := 1, id := [], message := [], type := .recurring, nextFire := 152,
      everySeconds := 1 / 2 }]

theorem calculateSleepDuration_demo :
    IsLeast {d | d = 60 ∨ ∃ job ∈ demoJobs, job.ComesTo 150 (150 + d)} 2 ∧
      ∃ job ∈ demoJobs, job.Stuck 152 := by
  have hread : ∀ now, ∀ job ∈ demoJobs, job.Readable now := by
    intro now job hjob htype
    have hrecurring : job.type = .recurring := by
      revert job
      decide
    rw [hrecurring] at htype
    cases htype
  refine ⟨(calculateSleepDuration_spec (by decide) 60 (hread 150)).2 2 (by decide +kernel), ?_⟩
  exact (calculateSleepDuration_spec (by decide) 60 (hread 152)).1.mp (by decide +kernel)

end JiuwenCore.CronWatcher
