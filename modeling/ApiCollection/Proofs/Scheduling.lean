import ApiCollection.Proofs.Harvest

/-!
# Extraction does not depend on the schedule

Every file is at one place of a pool at any time: in the queue, with a worker, in the channel or
among the results that have arrived. When the workers have stopped and the channel is empty, every
result has therefore arrived once, and what is put together from the results is what a single
worker gives that takes the files in order.
-/

namespace ApiCollection

variable {α β : Type} {task : α → β}

namespace Worker

def file? : Worker α → Option α
  | .busy file => some file
  | .idle | .stopped => none

private theorem file?_of_isStopped {w : Worker α} (h : w.isStopped = true) : w.file? = none := by
  cases w <;> simp_all [isStopped, file?]

end Worker

namespace Pool

/-- The results that have arrived, those on their way and those that are still to come. -/
def ledger (task : α → β) (p : Pool α β) : List (α × β) :=
  p.received ++ p.channel ++ inOrder task (p.workers.filterMap Worker.file?) ++
    inOrder task p.queue

/-- What every step keeps: nothing is lost or doubled, the number of workers, and that a worker
stops only when the queue is empty. -/
structure Sound (task : α → β) (files : List α) (workers : Nat) (p : Pool α β) : Prop where
  ledger : (p.ledger task).Perm (inOrder task files)
  size : p.workers.length = workers
  stopped : ∀ w ∈ p.workers, w.isStopped = true → p.queue = []

@[simp] theorem inOrder_nil : inOrder task [] = [] := rfl

@[simp] theorem inOrder_cons (file : α) (files : List α) :
    inOrder task (file :: files) = (file, task file) :: inOrder task files := rfl

@[simp] theorem inOrder_append (files others : List α) :
    inOrder task (files ++ others) = inOrder task files ++ inOrder task others :=
  List.map_append

theorem sound_start (files : List α) (workers : Nat) :
    Sound task files workers (.start files workers) := by
  refine ⟨?_, by simp [start], ?_⟩
  · have none_taken : (List.replicate workers (Worker.idle : Worker α)).filterMap Worker.file? = [] :=
      List.filterMap_eq_nil_iff.2 fun w hw => by rw [List.eq_of_mem_replicate hw]; rfl
    simp [Pool.ledger, start, none_taken]
  · intro w hw stopped
    rw [List.eq_of_mem_replicate hw] at stopped
    cases stopped

/-- A step moves at most one result from one place to another. -/
theorem Step.ledger_perm {p q : Pool α β} (step : Step task p q) :
    (q.ledger task).Perm (p.ledger task) := by
  cases step with
  | take before after =>
    simp only [Pool.ledger, List.filterMap_append, List.filterMap_cons, Worker.file?,
      inOrder_append, inOrder_cons, List.append_assoc, List.cons_append]
    exact ((List.perm_middle.symm.append_left _).append_left _).append_left _
  | finish before after =>
    simp only [Pool.ledger, List.filterMap_append, List.filterMap_cons, Worker.file?,
      inOrder_append, inOrder_cons, List.append_assoc, List.cons_append, List.nil_append]
    exact (List.perm_middle.symm.append_left _).append_left _
  | stop => simp [Pool.ledger, List.filterMap_cons, Worker.file?]
  | receive => simp [Pool.ledger]

private theorem Step.size_eq {p q : Pool α β} (step : Step task p q) :
    q.workers.length = p.workers.length := by
  cases step <;> simp

/-- A queue that is empty stays empty, and no worker stops at any other one. -/
theorem Step.stopped {p q : Pool α β} (step : Step task p q)
    (before : ∀ w ∈ p.workers, w.isStopped = true → p.queue = []) :
    ∀ w ∈ q.workers, w.isStopped = true → q.queue = [] := by
  -- the worker that acts is not stopped, unless it has just found the queue empty
  have others {queue : List α} {l r : List (Worker α)} {old new : Worker α}
      (kept : ∀ w ∈ l ++ old :: r, w.isStopped = true → queue = [])
      (active : new.isStopped = false) :
      ∀ w ∈ l ++ new :: r, w.isStopped = true → queue = [] := by
    intro w hw stopped
    rcases List.mem_append.1 hw with hw | hw
    · exact kept w (List.mem_append_left _ hw) stopped
    · rcases List.mem_cons.1 hw with rfl | hw
      · rw [active] at stopped
        cases stopped
      · exact kept w (List.mem_append_right _ (List.mem_cons_of_mem _ hw)) stopped
  cases step with
  | take => exact others (fun w hw stopped => by cases before w hw stopped) rfl
  | finish => exact others before rfl
  | stop => exact fun _ _ _ => rfl
  | receive => exact before

private theorem Sound.step {files : List α} {workers : Nat} {p q : Pool α β}
    (sound : Sound task files workers p) (step : Step task p q) : Sound task files workers q :=
  ⟨step.ledger_perm.trans sound.ledger, step.size_eq.trans sound.size, step.stopped sound.stopped⟩

theorem Sound.run {files : List α} {workers : Nat} {p q : Pool α β}
    (sound : Sound task files workers p) (run : Run task p q) : Sound task files workers q := by
  induction run with
  | done => exact sound
  | next step _ ih => exact ih (sound.step step)

theorem Sound.queue_eq_nil {files : List α} {workers : Nat} {p : Pool α β}
    (sound : Sound task files workers p) (positive : 1 ≤ workers)
    (finished : p.isFinished = true) : p.queue = [] := by
  obtain ⟨stopped, -⟩ := Bool.and_eq_true_iff.1 finished
  have size := sound.size
  cases h : p.workers with
  | nil => simp [h] at size; omega
  | cons w rest =>
    have member : w ∈ p.workers := by simp [h]
    exact sound.stopped w member (List.all_eq_true.1 stopped w member)

/-- When the work is finished, the result of every file has arrived once. -/
theorem Sound.received_perm {files : List α} {workers : Nat} {p : Pool α β}
    (sound : Sound task files workers p) (positive : 1 ≤ workers)
    (finished : p.isFinished = true) : p.received.Perm (inOrder task files) := by
  have ledger := sound.ledger
  have queue := sound.queue_eq_nil positive finished
  obtain ⟨stopped, channel⟩ := Bool.and_eq_true_iff.1 finished
  have taken : p.workers.filterMap Worker.file? = [] :=
    List.filterMap_eq_nil_iff.2 fun w hw =>
      Worker.file?_of_isStopped (List.all_eq_true.1 stopped w hw)
  simpa [Pool.ledger, queue, taken, List.isEmpty_iff.1 channel] using ledger

/-- One worker alone can take the files in order. -/
theorem run_one (files : List α) (received : List (α × β)) :
    Run task ⟨files, [.idle], [], received⟩ ⟨[], [.stopped], [], received ++ inOrder task files⟩ := by
  induction files generalizing received with
  | nil => simpa using Run.single (.stop [] [])
  | cons file files ih =>
    have take : Step task ⟨file :: files, [.idle], [], received⟩ ⟨files, [.busy file], [], received⟩ :=
      .take [] []
    have finish : Step task ⟨files, [.busy file], [], received⟩
        ⟨files, [.idle], [(file, task file)], received⟩ :=
      .finish [] []
    have receive : Step task ⟨files, [.idle], [(file, task file)], received⟩
        ⟨files, [.idle], [], received ++ [(file, task file)]⟩ := .receive
    refine .next take (.next finish (.next receive ?_))
    simpa using ih (received ++ [(file, task file)])

/-- A worker that takes the files in order finishes the work. -/
theorem exists_run_inOrder (task : α → β) (files : List α) :
    ∃ p : Pool α β, Run task (.start files 1) p ∧ p.isFinished = true ∧
      p.received = inOrder task files ∧ p.queue = [] :=
  ⟨_, run_one files [], rfl, rfl, rfl⟩

/-- Workers that do nothing are in nobody's way. -/
theorem Step.addWorkers {p q : Pool α β} (step : Step task p q) (others : List (Worker α)) :
    Step task { p with workers := p.workers ++ others }
      { q with workers := q.workers ++ others } := by
  cases step with
  | take before after => simpa using Step.take before (after ++ others)
  | finish before after => simpa using Step.finish before (after ++ others)
  | stop before after => simpa using Step.stop before (after ++ others)
  | receive => exact .receive

private theorem Run.addWorkers {p q : Pool α β} (run : Run task p q) (others : List (Worker α)) :
    Run task { p with workers := p.workers ++ others }
      { q with workers := q.workers ++ others } := by
  induction run with
  | done => exact .done
  | next step _ ih => exact .next (step.addWorkers others) ih

/-- Workers that find the queue empty stop one after the other. -/
theorem run_stop (workers : Nat) (front : List (Worker α)) (received : List (α × β)) :
    Run task ⟨[], front ++ List.replicate workers .idle, [], received⟩
      ⟨[], front ++ List.replicate workers .stopped, [], received⟩ := by
  induction workers generalizing front with
  | zero => exact .done
  | succ workers ih =>
    rw [List.replicate_succ, List.replicate_succ]
    refine .next (.stop front _) ?_
    have rest := ih (front ++ [.stopped])
    rwa [List.append_assoc, List.append_assoc] at rest

/-- Any number of workers can finish the work. -/
theorem exists_run_finished (task : α → β) (files : List α) {workers : Nat}
    (positive : 1 ≤ workers) :
    ∃ p : Pool α β, Run task (.start files workers) p ∧ p.isFinished = true := by
  obtain ⟨others, rfl⟩ := Nat.exists_eq_add_of_le' positive
  have alone : Run task _ _ := run_one files []
  have first := alone.addWorkers (List.replicate others .idle)
  refine ⟨_, first.trans (run_stop others [.stopped] _), ?_⟩
  simp [isFinished, Worker.isStopped]

end Pool

section Outcome

variable {task : String → Except Failure Extraction} {files : List String}

open Harvest (extraction? warning?)

/-- What comes of a pool that has gone through some files, whatever the schedule was. -/
structure Accounted (task : String → Except Failure Extraction) (files : List String)
    (baseUrl : Option String) (cache : Dto.Cache)
    (p : Pool String (Except Failure Extraction)) : Prop where
  /-- The result of every file has arrived once. -/
  received : p.received.Perm (Pool.inOrder task files)
  leftover : p.queue = []
  /-- The keys of the extractions are the files that could be extracted. -/
  extracted : ((Harvest.of p.received).extracted.map Prod.fst).Perm
    (files.filter fun file => (task file).isOk)
  /-- There is one warning for each file that could not be extracted. -/
  skipped : ((ProjectExtraction.ofPool baseUrl cache files.length p).warnings.map (·.path)).Perm
    (files.filter fun file => !(task file).isOk)
  /-- A warning tells the failure of its file. -/
  reasons : ∀ w ∈ (ProjectExtraction.ofPool baseUrl cache files.length p).warnings,
    ∃ failure, task w.path = .error failure ∧ w = .failed w.path failure
  counted : files.length = (Harvest.of p.received).extracted.length +
    (ProjectExtraction.ofPool baseUrl cache files.length p).warnings.length
  /-- The interface and the warnings are those of one worker that takes the files in order. -/
  serial : ∃ q, Pool.Run task (.start files 1) q ∧ q.isFinished = true ∧
    q.received = Pool.inOrder task files ∧
    ProjectExtraction.ofPool baseUrl cache files.length p =
      ProjectExtraction.ofPool baseUrl cache files.length q

private theorem extracted_inOrder (files : List String) :
    ((Pool.inOrder task files).filterMap extraction?).map Prod.fst =
      files.filter fun file => (task file).isOk := by
  induction files with
  | nil => rfl
  | cons file files ih =>
    cases h : task file <;> simp [List.filterMap_cons, h, ih, Except.isOk, Except.toBool]

theorem skipped_inOrder (files : List String) :
    ((Pool.inOrder task files).filterMap warning?).map (·.path) =
      files.filter fun file => !(task file).isOk := by
  induction files with
  | nil => rfl
  | cons file files ih =>
    cases h : task file <;> simp [List.filterMap_cons, h, ih, Except.isOk, Except.toBool,
      FileWarning.failed]

theorem apart_inOrder (apart : files.Pairwise Apart) :
    (Pool.inOrder task files).Pairwise fun r s => Apart r.1 s.1 :=
  List.pairwise_map.2 apart

/-- The warnings of a pool with nothing left are those of its results. -/
theorem warnings_ofPool (baseUrl : Option String) (cache : Dto.Cache) (controllers : Nat)
    {p : Pool String (Except Failure Extraction)}
    (apart : p.received.Pairwise fun r s => Apart r.1 s.1) (leftover : p.queue = []) :
    (ProjectExtraction.ofPool baseUrl cache controllers p).warnings.Perm
      (p.received.filterMap warning?) := by
  have warnings := (Harvest.holds_of apart).warnings
  simpa [ProjectExtraction.ofPool, ProjectExtraction.ofResults, leftover, warnings] using
    FileWarning.sort_perm (p.received.filterMap warning?)

/-- For distinct files, any number of workers and any schedule, the finished pool has come to
what a single worker comes to. -/
theorem accounted_of_run (apart : files.Pairwise Apart) {workers : Nat} (positive : 1 ≤ workers)
    {p : Pool String (Except Failure Extraction)} (run : Pool.Run task (.start files workers) p)
    (finished : p.isFinished = true) (baseUrl : Option String) (cache : Dto.Cache) :
    Accounted task files baseUrl cache p := by
  have sound := (Pool.sound_start files workers).run run
  have received := sound.received_perm positive finished
  have leftover := sound.queue_eq_nil positive finished
  have apartReceived := (received.pairwise_iff Apart.symm).2 (apart_inOrder apart)
  have held := Harvest.holds_of apartReceived
  have warnings := warnings_ofPool baseUrl cache files.length apartReceived leftover
  have extracted : ((Harvest.of p.received).extracted.map Prod.fst).Perm
      (files.filter fun file => (task file).isOk) := by
    rw [← extracted_inOrder files]
    exact (held.extracted.trans (received.filterMap _)).map _
  have skipped : ((ProjectExtraction.ofPool baseUrl cache files.length p).warnings.map
      (·.path)).Perm (files.filter fun file => !(task file).isOk) := by
    rw [← skipped_inOrder files]
    exact (warnings.trans (received.filterMap _)).map _
  refine ⟨received, leftover, extracted, skipped, ?_, ?_, ?_⟩
  · intro w hw
    obtain ⟨r, hr, found⟩ := List.mem_filterMap.1 (warnings.subset hw)
    obtain ⟨file, -, rfl⟩ := List.mem_map.1 (received.subset hr)
    cases h : task file with
    | ok x => simp [h] at found
    | error failure =>
      simp only [h, Harvest.warning?_error, Option.some.injEq] at found
      subst found
      exact ⟨failure, h, rfl⟩
  · have extractedLength := extracted.length_eq
    have skippedLength := skipped.length_eq
    rw [List.length_map] at extractedLength skippedLength
    have parts : files.length = _ := List.length_eq_length_filter_add fun file => (task file).isOk
    omega
  · obtain ⟨q, oneRun, oneFinished, oneReceived, oneLeftover⟩ := Pool.exists_run_inOrder task files
    refine ⟨q, oneRun, oneFinished, oneReceived, ?_⟩
    rw [ProjectExtraction.ofPool, ProjectExtraction.ofPool, leftover, oneLeftover, oneReceived]
    exact ProjectExtraction.ofResults_eq_of_perm _ _ _ apartReceived received

/-- Two workers that finish in the order opposite to that of the queue, with one file that cannot
be read. -/
theorem accounted_two_workers :
    let task : String → Except Failure Extraction := fun file =>
      if file = "a" then .error (.unreadable file "no text") else .ok ⟨file, [], []⟩
    let p : Pool String (Except Failure Extraction) :=
      ⟨[], [.stopped, .stopped], [], [("a", task "a"), ("b", task "b")]⟩
    ["b", "a"].Pairwise Apart ∧ 1 ≤ 2 ∧ Pool.Run task (.start ["b", "a"] 2) p ∧
      p.isFinished = true ∧ Accounted task ["b", "a"] none {} p := by
  intro task p
  have apart : ["b", "a"].Pairwise Apart := by simp [Apart]; decide
  have run : Pool.Run task (.start ["b", "a"] 2) p := by
    refine .next (.take [] [.idle]) ?_
    refine .next (.take [.busy "b"] []) ?_
    refine .next (.finish [.busy "b"] []) ?_
    refine .next (.finish [] [.idle]) ?_
    refine .next .receive (.next .receive ?_)
    refine .next (.stop [] [.idle]) ?_
    exact .single (.stop [.stopped] [])
  exact ⟨apart, by decide, run, rfl, accounted_of_run apart (by decide) run rfl none {}⟩

/-- The extraction of a project is what its workers come to on any schedule. -/
theorem ProjectExtraction.of_eq_ofPool {fs : FileSystem} {s : Settings} {root : String}
    {scan : Scan}
    (scanned : Scan.of fs root s.filter = .ok scan) (apart : scan.controllers.Pairwise Apart)
    {p : Pool String (Except Failure Extraction)}
    (run : Pool.Run (extractFile fs s (Dto.Cache.ofProject fs root) root)
      (.start scan.controllers (s.workerCount scan.controllers.length)) p)
    (finished : p.isFinished = true) :
    ProjectExtraction.of fs s root = .ok (.ofPool s.baseUrl (Dto.Cache.ofProject fs root)
      scan.controllers.length p) := by
  have sound := (Pool.sound_start _ _).run run
  have positive := s.workerCount_pos scan.controllers.length
  have same := sound.received_perm positive finished
  have outcome := ofResults_eq_of_perm s.baseUrl (Dto.Cache.ofProject fs root)
    scan.controllers.length (apart_inOrder apart) same.symm
  simp only [ProjectExtraction.of, scanned, ofPool, sound.queue_eq_nil positive finished, ← outcome]
  rfl

end Outcome

end ApiCollection
