import JiuwenCore.Cron.Jobs

/-!
# Jobs that are kept

A check writes the file from what it has read at its beginning. As long as the tool stays out of
it, no job is lost and none comes back.
-/

namespace JiuwenCore.CronWatcher

/-- The tool is not called in the middle of a check. -/
def Apart (s : System) : Event → Prop
  | .add _ | .remove _ => s.checking = none
  | _ => True

def System.Origin (s : System) (job : Job) : Prop :=
  ∃ born, s.born[job.uid]? = some born ∧ born.type = job.type

/-- A job that is marked in a check is a one-time job that was done. -/
def System.Marked (s : System) (job : Job) : Prop :=
  job.removed = true → job.type = .oneTime ∧ handledAt s.log job.uid ≠ []

structure System.Keeps (s : System) : Prop where
  born : ∀ (i : Nat) (job : Job), s.born[i]? = some job → job.uid = i
  dropped : ∀ uid ∈ s.dropped, uid < s.born.length
  present : ∀ job ∈ s.born, job.uid ∉ s.dropped →
    (∃ other ∈ s.file.getD [], other.uid = job.uid) ∨
      job.type = .oneTime ∧ handledAt s.log job.uid ≠ []
  nodup : ((s.file.getD []).map Job.uid).Nodup
  file : ∀ job ∈ s.file.getD [], job.removed = false ∧ job.uid ∉ s.dropped ∧ s.Origin job
  checking : ∀ c ∈ s.checking, (c.done ++ c.todo).map Job.uid = (s.file.getD []).map Job.uid ∧
    ∀ job ∈ c.done ++ c.todo, s.Origin job ∧ s.Marked job

theorem System.Marked.grows {s : System} {job : Job} (h : s.Marked job)
    (more : List (Nat × Int)) : System.Marked { s with log := s.log ++ more } job :=
  fun hremoved => ⟨(h hremoved).1, handledAt_grows (h hremoved).2⟩

theorem System.Keeps.logged {s : System} (h : s.Keeps) (more : List (Nat × Int)) :
    System.Keeps { s with log := s.log ++ more } := by
  refine ⟨h.born, h.dropped, fun job hjob hkept => ?_, h.nodup, h.file, fun c hc => ?_⟩
  · rcases h.present job hjob hkept with hfile | ⟨htype, hdone⟩
    · exact Or.inl hfile
    · exact Or.inr ⟨htype, handledAt_grows hdone⟩
  · obtain ⟨huids, hall⟩ := h.checking c hc
    exact ⟨huids, fun job hjob => ⟨(hall job hjob).1, (hall job hjob).2.grows more⟩⟩

/-- A check changes no uid and no type, and marks only a one-time job that it has done. -/
theorem checkJob_marks (now : Int) (answer : Answer) (job : Job) :
    let c := checkJob now answer job
    c.job.uid = job.uid ∧ c.job.type = job.type ∧
      (c.job.removed = true → job.removed = true ∨ job.type = .oneTime ∧ c.handled = true) := by
  intro c
  rcases checkJob_cases now answer job with ⟨hjob, -, -⟩ | ⟨-, -, -, -, next, -, hjob⟩ |
    ⟨-, -, hhandled, hafter⟩
  · change c.job = job at hjob
    rw [hjob]
    exact ⟨rfl, rfl, Or.inl⟩
  · change c.job = _ at hjob
    rw [hjob]
    exact ⟨rfl, rfl, Or.inl⟩
  · change c.handled = true at hhandled
    change c.left = true ∧ c.job = job ∨ c.modified = true ∧ job.afterwards now = some c.job
      at hafter
    rcases hafter with ⟨-, hjob⟩ | ⟨-, hafter⟩
    · rw [hjob]
      exact ⟨rfl, rfl, Or.inl⟩
    · have hsame := Job.afterwards_same hafter
      exact ⟨hsame.uid, hsame.type, fun hremoved =>
        (afterwards_removed hafter hremoved).imp_right fun hone => ⟨hone, hhandled⟩⟩

/-- A check that goes on changes neither the file nor where its jobs come from. -/
theorem System.Keeps.advance {s : System} (h : s.Keeps) {c : Check} {job : Job} {rest : List Job}
    (hc : s.checking = some c) (htodo : c.todo = job :: rest) (answer : Answer) :
    (s.advance c job rest (checkJob c.now answer job)).Keeps := by
  obtain ⟨huids, hall⟩ := h.checking c hc
  rw [htodo] at huids hall
  obtain ⟨huid, htype, hmarks⟩ := checkJob_marks c.now answer job
  generalize checkJob c.now answer job = checked at huid htype hmarks
  have hlog : ∃ more, (s.advance c job rest checked).log = s.log ++ more ∧
      (checked.handled = true → handledAt (s.log ++ more) job.uid ≠ []) := by
    cases hhandled : checked.handled with
    | true =>
        refine ⟨[(job.uid, c.now)], by simp [System.advance, hhandled], fun _ => ?_⟩
        rw [handledAt_snoc, if_pos rfl]
        simp
    | false => exact ⟨[], by simp [System.advance, hhandled], fun hfalse => nomatch hfalse⟩
  obtain ⟨more, hlog, hdone⟩ := hlog
  have hlogged := h.logged more
  have hs : s.advance c job rest checked = { s with
      checking := some { now := c.now, done := c.done ++ [checked.job], todo := rest,
                         modified := c.modified || checked.modified }
      log := s.log ++ more } := by
    rw [← hlog]
    rfl
  rw [hs]
  refine ⟨hlogged.born, hlogged.dropped, hlogged.present, hlogged.nodup, hlogged.file, ?_⟩
  rintro c' ⟨⟩
  refine ⟨?_, fun other hother => ?_⟩
  · rw [← huids]
    simp [huid]
  · rw [List.append_assoc, List.singleton_append] at hother
    have hkeep : other ∈ c.done ++ job :: rest →
        s.Origin other ∧ System.Marked { s with log := s.log ++ more } other :=
      fun hmem => ⟨(hall other hmem).1, (hall other hmem).2.grows more⟩
    rcases List.mem_append.mp hother with hmem | hmem
    · exact hkeep (List.mem_append_left _ hmem)
    · rcases List.mem_cons.mp hmem with rfl | hmem
      · obtain ⟨⟨born, hget, hsame⟩, hmarked⟩ := hall job (by simp)
        refine ⟨⟨born, by rw [huid]; exact hget, by rw [htype]; exact hsame⟩, fun hremoved => ?_⟩
        rw [htype, huid]
        rcases hmarks hremoved with hold | ⟨hone, hhandled⟩
        · exact hmarked.grows more hold
        · exact ⟨hone, hdone hhandled⟩
      · exact hkeep (List.mem_append_right _ (List.mem_cons_of_mem _ hmem))

theorem System.Keeps.add {s : System} (h : s.Keeps) (hidle : s.checking = none) {r : Request}
    {job : Job} (hjob : newJob s.clock s.born.length r = some job) :
    System.Keeps { s with file := some (s.file.getD [] ++ [job]), born := s.born ++ [job] } := by
  obtain ⟨huid, hremoved⟩ := newJob_fresh hjob
  have hgrow : ∀ other : Job, s.Origin other →
      System.Origin { s with file := some (s.file.getD [] ++ [job]), born := s.born ++ [job] }
        other := by
    rintro other ⟨born, hget, htype⟩
    refine ⟨born, ?_, htype⟩
    exact (List.getElem?_append_left (List.getElem?_eq_some_iff.mp hget).1).trans hget
  refine ⟨?_, ?_, ?_, ?_, ?_, by simp [hidle]⟩
  · intro i other hget
    rcases getElem?_snoc hget with hold | ⟨rfl, rfl⟩
    · exact h.born i other hold
    · exact huid
  · intro uid hdropped
    have hlt := h.dropped uid hdropped
    rw [List.length_append]
    exact Nat.lt_add_right _ hlt
  · intro other hother hkept
    rcases List.mem_append.mp hother with hold | hnew
    · rcases h.present other hold hkept with ⟨kept, hmem, heq⟩ | hdone
      · exact Or.inl ⟨kept, List.mem_append_left _ hmem, heq⟩
      · exact Or.inr hdone
    · exact Or.inl ⟨other, List.mem_append_right _ hnew, rfl⟩
  · rw [Option.getD_some, List.map_append, List.nodup_append]
    refine ⟨h.nodup, by simp, ?_⟩
    intro uid hmem uid' hmem'
    obtain ⟨other, hother, rfl⟩ := List.mem_map.mp hmem
    obtain ⟨-, -, born, hget, -⟩ := h.file other hother
    have hlt := (List.getElem?_eq_some_iff.mp hget).1
    simp only [List.map_cons, List.map_nil, List.mem_singleton] at hmem'
    omega
  · intro other hother
    rcases List.mem_append.mp hother with hold | hnew
    · obtain ⟨hplain, hkept, horigin⟩ := h.file other hold
      exact ⟨hplain, hkept, hgrow other horigin⟩
    · rw [List.mem_singleton.mp hnew]
      refine ⟨hremoved, fun hdropped => ?_, job, ?_, rfl⟩
      · have hlt := h.dropped _ hdropped
        omega
      · rw [huid]
        exact List.getElem?_concat_length

/-- Removing a job moves its uid from the file to the removed ones. -/
theorem System.Keeps.remove {s : System} (h : s.Keeps) (hidle : s.checking = none)
    (jobId : Str) : (s.remove jobId).Keeps := by
  unfold System.remove
  split
  · exact h
  · rename_i jobs hjobs
    split
    · have hnodup := h.nodup
      have hfile := h.file
      have hpresent := h.present
      rw [hjobs, Option.getD_some] at hnodup hfile hpresent
      have hsub := remove_sublist jobId jobs
      have huids := markRemoved_uids jobId jobs
      simp only
      generalize hmarked : markRemoved jobId jobs = marked at hsub huids
      have hleft : (if marked.filter Job.kept = [] then none
          else some (marked.filter Job.kept)).getD [] = marked.filter Job.kept := by
        split
        · rename_i hnil
          exact hnil.symm
        · rfl
      have hmarkedNodup : (marked.map Job.uid).Nodup := huids ▸ hnodup
      refine ⟨h.born, ?_, ?_, ?_, ?_, by simp [hidle]⟩
      · intro uid hdropped
        rcases List.mem_append.mp hdropped with hold | hnew
        · exact h.dropped uid hold
        · obtain ⟨job, hjob, rfl⟩ := List.mem_map.mp hnew
          have hmem : job.uid ∈ jobs.map Job.uid :=
            huids ▸ List.mem_map_of_mem (List.mem_of_mem_filter hjob)
          obtain ⟨other, hother, heq⟩ := List.mem_map.mp hmem
          obtain ⟨-, -, born, hget, -⟩ := hfile other hother
          rw [← heq]
          exact (List.getElem?_eq_some_iff.mp hget).1
      · intro job hjob hkept
        rw [List.mem_append, not_or] at hkept
        rcases hpresent job hjob hkept.1 with ⟨other, hother, heq⟩ | hdone
        · have hmem : other.uid ∈ marked.map Job.uid := huids ▸ List.mem_map_of_mem hother
          obtain ⟨found, hfound, hfoundUid⟩ := List.mem_map.mp hmem
          refine Or.inl ⟨found, ?_, hfoundUid.trans heq⟩
          rw [hleft]
          refine List.mem_filter.mpr ⟨hfound, ?_⟩
          by_contra hnot
          refine hkept.2 (List.mem_map.mpr ⟨found, List.mem_filter.mpr ⟨hfound, ?_⟩,
            hfoundUid.trans heq⟩)
          simpa using hnot
        · exact Or.inr hdone
      · rw [hleft]
        exact hnodup.sublist (hsub.map _)
      · intro job hjob
        rw [hleft] at hjob
        obtain ⟨hplain, hkept, horigin⟩ := hfile job (hsub.subset hjob)
        refine ⟨hplain, fun hdropped => ?_, horigin⟩
        rcases List.mem_append.mp hdropped with hold | hnew
        · exact hkept hold
        · -- the uid would be that of two marked jobs
          obtain ⟨other, hother, heq⟩ := List.mem_map.mp hnew
          obtain ⟨hmem, hnot⟩ := List.mem_filter.mp hother
          obtain ⟨hmem', hyes⟩ := List.mem_filter.mp hjob
          have hsame := List.inj_on_of_nodup_map hmarkedNodup hmem hmem' heq
          rw [hsame, hyes] at hnot
          cases hnot
    · exact h

/-- At its end a check leaves out the one-time jobs that were done. -/
theorem System.Keeps.finish {s : System} (h : s.Keeps) {c : Check} (hc : s.checking = some c)
    (htodo : c.todo = []) : (s.finish c).Keeps := by
  obtain ⟨huids, hall⟩ := h.checking c hc
  rw [htodo, List.append_nil] at huids hall
  unfold System.finish
  simp only
  split
  · have hsub : ((c.done.filter (!·.deleted)).map Job.uid).Sublist (c.done.map Job.uid) :=
      List.filter_sublist.map _
    refine ⟨h.born, h.dropped, fun job hjob hkept => ?_, ?_, fun job hjob => ?_, by simp⟩
    · rcases h.present job hjob hkept with ⟨other, hother, heq⟩ | hdone
      · have hmem : other.uid ∈ c.done.map Job.uid := huids ▸ List.mem_map_of_mem hother
        obtain ⟨found, hfound, hfoundUid⟩ := List.mem_map.mp hmem
        by_cases hdeleted : found.deleted = true
        · -- it is the job itself, which was done
          obtain ⟨⟨born, hget, htype⟩, hmarked⟩ := hall found hfound
          obtain ⟨hremoved, -⟩ := Bool.and_eq_true_iff.mp hdeleted
          obtain ⟨hone, hdone⟩ := hmarked hremoved
          obtain ⟨i, hi⟩ := List.mem_iff_getElem?.mp hjob
          rw [hfoundUid, heq, h.born i job hi, hi] at hget
          cases hget
          rw [hfoundUid, heq] at hdone
          exact Or.inr ⟨htype.trans hone, hdone⟩
        · refine Or.inl ⟨found, List.mem_filter.mpr ⟨hfound, ?_⟩, hfoundUid.trans heq⟩
          simpa using hdeleted
      · exact Or.inr hdone
    · exact (huids ▸ h.nodup).sublist hsub
    · obtain ⟨hmem, hnot⟩ := List.mem_filter.mp hjob
      obtain ⟨horigin, hmarked⟩ := hall job hmem
      refine ⟨?_, ?_, horigin⟩
      · by_contra hremoved
        rw [Bool.not_eq_false] at hremoved
        simp [Job.deleted, hremoved, (hmarked hremoved).1] at hnot
      · have huid : job.uid ∈ (s.file.getD []).map Job.uid := huids ▸ List.mem_map_of_mem hmem
        obtain ⟨other, hother, heq⟩ := List.mem_map.mp huid
        exact heq ▸ (h.file other hother).2.1
  · exact ⟨h.born, h.dropped, h.present, h.nodup, h.file, by simp⟩

theorem System.Keeps.step {s s' : System} (h : s.Keeps) {event : Event} (hapart : Apart s event)
    (hstep : CronWatcher.step s event = some s') : s'.Keeps := by
  cases event with
  | tick seconds =>
      cases hstep
      exact ⟨h.born, h.dropped, h.present, h.nodup, h.file, h.checking⟩
  | add r =>
      rw [CronWatcher.step] at hstep
      split at hstep
      · cases hstep
        exact h
      · rename_i job hjob
        cases hstep
        exact h.add hapart hjob
  | remove jobId =>
      cases hstep
      exact h.remove hapart jobId
  | begin =>
      rw [CronWatcher.step] at hstep
      split at hstep
      · rename_i jobs hchecking hfile
        cases hstep
        refine ⟨h.born, h.dropped, h.present, h.nodup, h.file, ?_⟩
        rintro c' ⟨⟩
        simp only [hfile, Option.getD_some, List.nil_append]
        refine ⟨trivial, fun job hjob => ?_⟩
        obtain ⟨hplain, -, horigin⟩ := h.file job (by simp [hfile, hjob])
        refine ⟨horigin, fun hremoved => ?_⟩
        rw [hplain] at hremoved
        cases hremoved
      · cases hstep
        exact h
      · cases hstep
  | next answer =>
      rw [CronWatcher.step] at hstep
      split at hstep
      · rename_i now done job rest modified hc
        have hnext := h.advance hc rfl answer
        simp only at hstep
        split at hstep
        · -- the check is left, and only the log may have grown
          cases hstep
          exact ⟨hnext.born, hnext.dropped, hnext.present, hnext.nodup, hnext.file, by simp⟩
        · cases hstep
          exact hnext
      · cases hstep
  | finish =>
      rw [CronWatcher.step] at hstep
      split at hstep
      · rename_i c hc
        obtain ⟨htodo, heq⟩ := Option.ite_none_right_eq_some.mp hstep
        cases heq
        exact h.finish hc htodo
      · cases hstep

instance (s : System) : (event : Event) → Decidable (Apart s event)
  | .add _ | .remove _ => inferInstanceAs (Decidable (s.checking = none))
  | .tick _ | .begin | .next _ | .finish => inferInstanceAs (Decidable True)

end JiuwenCore.CronWatcher
