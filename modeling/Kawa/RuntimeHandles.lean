import Kawa.Ids

/-!
Runtimes of one Work on a node: the handle cache, and the launches, teardowns and cleanups of
any number of processes.  A locked section of the cache is one step, and so is a call of the
backend outside it.
-/

namespace Kawa

/-- `token_for`: the same token for every runtime of a Work. -/
def tokenFor (platform : Platform) (workRef : String) : String :=
  "kawa-" ++ String.ofList ((platform.sha256 workRef).toList.take 12)

structure RuntimeHandle where
  backend : String
  token : String
deriving DecidableEq

/-- What the cache records for the Work; `run` counts the starts, where the source keeps the
time of the start. -/
structure CacheEntry where
  handle : RuntimeHandle
  run : Nat
deriving DecidableEq

/-- A live runtime of the Work. -/
structure LiveRuntime where
  handle : RuntimeHandle
  run : Nat
deriving DecidableEq

/-- The teardown of one runtime, by an operator's `terminate` or by a launch's `_cleanup`. -/
structure Teardown where
  handle : RuntimeHandle
  run : Nat
  operator : Bool
deriving DecidableEq

/-- Where a process stands between two of its steps. -/
inductive Phase
  | idle
  | settling (handle : RuntimeHandle) (run : Nat)
  | tearing (teardown : Teardown)
  | confirming (teardown : Teardown)
  | dropping (teardown : Teardown)
deriving DecidableEq

structure RuntimeNode where
  entry : Option CacheEntry
  alive : List LiveRuntime
  started : Nat
  phase : Nat → Phase

/-- How a `terminate` of the backend ends; a clean return means absence. -/
inductive Kill
  | clean
  | raisedAfterwards
  | raisedBefore
deriving DecidableEq

/-- How a `launch` of the backend ends; it may raise and leave the runtime it made running. -/
inductive Start
  | started
  | raisedAfterwards
  | raisedBefore
deriving DecidableEq

/-- How the backends answer in one locked section of a launch. -/
structure BackendAnswers where
  reachable : Bool
  inspects : Bool
  kill : Kill
  start : Start

inductive RuntimeAction
  | launch (process : Nat) (backend : String) (force : Bool) (answers : BackendAnswers)
  | settle (process : Nat) (settled : Bool)
  | terminate (process : Nat) (reachable : Bool)
  | kill (process : Nat) (outcome : Kill)
  | confirm (process : Nat) (inspects : Bool)
  | drop (process : Nat)
  | exit (run : Nat)

namespace RuntimeNode

def empty : RuntimeNode := { entry := none, alive := [], started := 0, phase := fun _ => .idle }

/-- `inspect` finds the runtime of a handle present. -/
def present (node : RuntimeNode) (handle : RuntimeHandle) : Bool :=
  node.alive.any (·.handle = handle)

def move (node : RuntimeNode) (process : Nat) (phase : Phase) : RuntimeNode :=
  { node with phase := fun other => if other = process then phase else node.phase other }

/-- What a `terminate` of the backend does to the runtimes. -/
def killed (node : RuntimeNode) (handle : RuntimeHandle) : Kill → RuntimeNode
  | .raisedBefore => node
  | _ => { node with alive := node.alive.filter (·.handle ≠ handle) }

/-- `_terminate_proven`, inside a locked section. -/
def terminateProven (node : RuntimeNode) (handle : RuntimeHandle) (answers : BackendAnswers) :
    RuntimeNode × Bool :=
  let after := node.killed handle answers.kill
  if answers.kill = .clean then (after, true)
  else (after, answers.inspects && !after.present handle)

/-- `backend.launch` and `cache.put`; a backend refuses a token that is running. -/
def start (node : RuntimeNode) (token : String) (process : Nat) (backend : String)
    (outcome : Start) : RuntimeNode :=
  let handle : RuntimeHandle := { backend := backend, token := token }
  let runtime : LiveRuntime := { handle := handle, run := node.started + 1 }
  if node.present handle then node
  else match outcome with
    | .started =>
        { entry := some { handle := handle, run := node.started + 1 }
          alive := runtime :: node.alive
          started := node.started + 1
          phase := (node.move process (.settling handle (node.started + 1))).phase }
    | .raisedAfterwards =>
        { node with alive := runtime :: node.alive, started := node.started + 1 }
    | .raisedBefore => node

/-- The duplicate check of `launch`, and whether the launch may go on. -/
def cleared (node : RuntimeNode) (force : Bool) (answers : BackendAnswers) : RuntimeNode × Bool :=
  match node.entry with
  | none => (node, true)
  | some existing =>
      if !answers.reachable then (node, false)
      else if !force then
        if !answers.inspects then (node, false)
        else if node.present existing.handle then (node, false)
        else ({ node with entry := none }, true)
      else
        let torn := node.terminateProven existing.handle answers
        if !torn.2 then (torn.1, false)
        else ({ torn.1 with entry := none }, true)

/-- The locked section of `launch`. -/
def launchSection (node : RuntimeNode) (token : String) (process : Nat) (backend : String)
    (force : Bool) (answers : BackendAnswers) : RuntimeNode :=
  let check := node.cleared force answers
  if check.2 then check.1.start token process backend answers.start else check.1

/-- The last locked section of a teardown: an operator's compares tokens, a cleanup's does not. -/
def dropSection (node : RuntimeNode) (teardown : Teardown) : RuntimeNode :=
  match node.entry with
  | none => node
  | some current =>
      if teardown.operator && current.handle.token != teardown.handle.token then node
      else { node with entry := none }

/-- One step of one process, or a runtime that ends by itself; a step that the process does not
stand before does nothing. -/
def act (token : String) (node : RuntimeNode) : RuntimeAction → RuntimeNode
  | .launch process backend force answers =>
      if node.phase process = .idle then
        node.launchSection token process backend force answers
      else node
  | .settle process settled =>
      match node.phase process with
      | .settling handle run =>
          if settled then node.move process .idle
          else node.move process (.tearing { handle := handle, run := run, operator := false })
      | _ => node
  | .terminate process reachable =>
      match node.phase process, node.entry with
      | .idle, some entry =>
          if reachable then
            node.move process
              (.tearing { handle := entry.handle, run := entry.run, operator := true })
          else node
      | _, _ => node
  | .kill process outcome =>
      match node.phase process with
      | .tearing teardown =>
          (node.killed teardown.handle outcome).move process
            (if outcome = .clean then .dropping teardown else .confirming teardown)
      | _ => node
  | .confirm process inspects =>
      match node.phase process with
      | .confirming teardown =>
          if inspects && !node.present teardown.handle then
            node.move process (.dropping teardown)
          else node.move process .idle
      | _ => node
  | .drop process =>
      match node.phase process with
      | .dropping teardown => (node.dropSection teardown).move process .idle
      | _ => node
  | .exit run => { node with alive := node.alive.filter (·.run ≠ run) }

def after (token : String) (node : RuntimeNode) (actions : List RuntimeAction) : RuntimeNode :=
  actions.foldl (act token) node

/-- Every live runtime of the Work is the recorded one. -/
def Recorded (node : RuntimeNode) : Prop :=
  ∀ runtime ∈ node.alive, ∃ entry, node.entry = some entry ∧
    entry.handle = runtime.handle ∧ entry.run = runtime.run

/-- The step drops this entry for this teardown. -/
def Drops (node : RuntimeNode) (action : RuntimeAction) (teardown : Teardown)
    (entry : CacheEntry) : Prop :=
  ∃ process, action = .drop process ∧ node.phase process = .dropping teardown ∧
    node.entry = some entry ∧
    (teardown.operator = true → entry.handle.token = teardown.handle.token)

/-- The step is a launch whose backend raises and leaves the new runtime running. -/
def LosesStart (node : RuntimeNode) (token : String) (action : RuntimeAction) : Prop :=
  ∃ process backend force answers, action = .launch process backend force answers ∧
    node.phase process = .idle ∧ (node.cleared force answers).2 = true ∧
    (node.cleared force answers).1.present { backend := backend, token := token } = false ∧
    answers.start = .raisedAfterwards

end RuntimeNode

open RuntimeNode

/-! ## What holds in every schedule -/

section Schedules

variable {token : String} {node : RuntimeNode}

/-- The recorded entry is of the last start. -/
def LastRecorded (node : RuntimeNode) : Prop := ∀ entry, node.entry = some entry →
  entry.run = node.started

@[simp] theorem move_entry (process : Nat) (phase : Phase) :
    (node.move process phase).entry = node.entry := rfl

@[simp] theorem move_alive (process : Nat) (phase : Phase) :
    (node.move process phase).alive = node.alive := rfl

@[simp] theorem move_started (process : Nat) (phase : Phase) :
    (node.move process phase).started = node.started := rfl

@[simp] theorem killed_entry (handle : RuntimeHandle) (outcome : Kill) :
    (node.killed handle outcome).entry = node.entry := by
  cases outcome <;> rfl

@[simp] theorem killed_started (handle : RuntimeHandle) (outcome : Kill) :
    (node.killed handle outcome).started = node.started := by
  cases outcome <;> rfl

@[simp] theorem killed_phase (handle : RuntimeHandle) (outcome : Kill) :
    (node.killed handle outcome).phase = node.phase := by
  cases outcome <;> rfl

theorem killed_alive {handle : RuntimeHandle} {outcome : Kill} {runtime : LiveRuntime}
    (member : runtime ∈ (node.killed handle outcome).alive) :
    runtime ∈ node.alive ∧ (outcome ≠ .raisedBefore → runtime.handle ≠ handle) := by
  cases outcome with
  | raisedBefore => exact ⟨member, fun differ => absurd rfl differ⟩
  | clean =>
      have kept := List.mem_filter.mp member
      exact ⟨kept.1, fun _ => of_decide_eq_true kept.2⟩
  | raisedAfterwards =>
      have kept := List.mem_filter.mp member
      exact ⟨kept.1, fun _ => of_decide_eq_true kept.2⟩

theorem present_eq_false {handle : RuntimeHandle} (absent : node.present handle = false)
    {runtime : LiveRuntime} (member : runtime ∈ node.alive) : runtime.handle ≠ handle := by
  intro same
  have found : node.present handle = true := List.any_eq_true.mpr ⟨runtime, member, by simp [same]⟩
  rw [absent] at found
  cases found

theorem start_lastRecorded {process : Nat} {backend : String} {outcome : Start}
    (bare : node.entry = none) : LastRecorded (node.start token process backend outcome) := by
  have unrecorded : ∀ entry, node.entry ≠ some entry := fun entry held => by
    rw [bare] at held
    cases held
  unfold RuntimeNode.start
  dsimp only
  split
  · exact fun entry held => absurd held (unrecorded entry)
  · cases outcome with
    | started =>
        intro entry recorded
        cases recorded
        rfl
    | raisedAfterwards => exact fun entry held => absurd held (unrecorded entry)
    | raisedBefore => exact fun entry held => absurd held (unrecorded entry)

theorem terminateProven_fields (handle : RuntimeHandle) (answers : BackendAnswers) :
    (node.terminateProven handle answers).1 = node.killed handle answers.kill := by
  unfold RuntimeNode.terminateProven
  dsimp only
  split <;> rfl

/-- A teardown is proven when its runtime is gone. -/
theorem terminateProven_absent {handle : RuntimeHandle} {answers : BackendAnswers}
    (proven : (node.terminateProven handle answers).2 = true) {runtime : LiveRuntime}
    (member : runtime ∈ (node.terminateProven handle answers).1.alive) :
    runtime.handle ≠ handle := by
  rw [terminateProven_fields] at member
  unfold RuntimeNode.terminateProven at proven
  by_cases clean : answers.kill = .clean
  · exact (killed_alive member).2 (by rw [clean]; exact Kill.noConfusion)
  · simp only [clean, ↓reduceIte, Bool.and_eq_true, Bool.not_eq_true'] at proven
    exact present_eq_false proven.2 member

/-- A launch goes on only when nothing is recorded any more. -/
theorem cleared_entry {force : Bool} {answers : BackendAnswers}
    (passed : (node.cleared force answers).2 = true) :
    (node.cleared force answers).1.entry = none := by
  unfold RuntimeNode.cleared at passed ⊢
  cases recorded : node.entry with
  | none => exact recorded
  | some existing =>
      rw [recorded] at passed
      dsimp only at passed ⊢
      split_ifs at passed ⊢ <;> rfl

/-- A launch that does not go on leaves the record as it was. -/
theorem cleared_refused {force : Bool} {answers : BackendAnswers}
    (refused : (node.cleared force answers).2 = false) :
    (node.cleared force answers).1 = node ∨
    ∃ existing, node.entry = some existing ∧
      (node.cleared force answers).1 = node.killed existing.handle answers.kill := by
  unfold RuntimeNode.cleared at refused ⊢
  cases recorded : node.entry with
  | none =>
      rw [recorded] at refused
      cases refused
  | some existing =>
      rw [recorded] at refused
      dsimp only at refused ⊢
      split_ifs at refused ⊢
      · exact .inl rfl
      · exact .inl rfl
      · exact .inl rfl
      · exact .inr ⟨existing, rfl, terminateProven_fields _ _⟩

theorem launchSection_lastRecorded {process : Nat} {backend : String} {force : Bool}
    {answers : BackendAnswers} (last : LastRecorded node) :
    LastRecorded (node.launchSection token process backend force answers) := by
  unfold RuntimeNode.launchSection
  dsimp only
  split
  · rename_i passed
    exact start_lastRecorded (cleared_entry passed)
  · rename_i refused
    rcases cleared_refused (Bool.not_eq_true _ ▸ refused) with same | ⟨existing, _, same⟩
    · rw [same]
      exact last
    · rw [same]
      intro entry held
      rw [killed_started]
      exact last entry (by rwa [killed_entry] at held)

theorem act_lastRecorded (last : LastRecorded node) (action : RuntimeAction) :
    LastRecorded (node.act token action) := by
  cases action with
  | launch process backend force answers =>
      unfold RuntimeNode.act
      dsimp only
      split
      · exact launchSection_lastRecorded last
      · exact last
  | settle process settled =>
      unfold RuntimeNode.act
      dsimp only
      split
      · split <;> exact last
      · exact last
  | terminate process reachable =>
      unfold RuntimeNode.act
      dsimp only
      split
      · split <;> exact last
      · exact last
  | kill process outcome =>
      unfold RuntimeNode.act
      dsimp only
      split
      · intro entry held
        rw [move_started, killed_started]
        exact last entry (by simpa using held)
      · exact last
  | confirm process inspects =>
      unfold RuntimeNode.act
      dsimp only
      split
      · split <;> exact last
      · exact last
  | drop process =>
      unfold RuntimeNode.act
      dsimp only
      split
      · rename_i teardown _
        unfold RuntimeNode.dropSection
        cases recorded : node.entry with
        | none => exact last
        | some current =>
            dsimp only
            split
            · exact last
            · exact fun entry held => by cases held
      · exact last
  | exit run => exact last

/-! ## The invariant -/

/-- The runtime that a process is about to tear down, while it lives, has the handle that the
process holds; once proven gone it is not alive. -/
structure PhaseSound (node : RuntimeNode) (phase : Phase) : Prop where
  settling : ∀ handle run, phase = .settling handle run → run ≤ node.started ∧
    ∀ runtime ∈ node.alive, runtime.run = run → runtime.handle = handle
  tearing : ∀ teardown, phase = .tearing teardown ∨ phase = .confirming teardown →
    teardown.run ≤ node.started ∧
    ∀ runtime ∈ node.alive, runtime.run = teardown.run → runtime.handle = teardown.handle
  dropping : ∀ teardown, phase = .dropping teardown → teardown.run ≤ node.started ∧
    ∀ runtime ∈ node.alive, runtime.run ≠ teardown.run

structure NodeSound (node : RuntimeNode) : Prop where
  last : LastRecorded node
  recorded : Recorded node
  phases : ∀ process, PhaseSound node (node.phase process)

theorem PhaseSound.idle : PhaseSound node .idle :=
  ⟨fun _ _ same => (by cases same), fun _ same => (by rcases same with same | same <;> cases same),
    fun _ same => (by cases same)⟩

theorem PhaseSound.tears {teardown : Teardown} (bound : teardown.run ≤ node.started)
    (held : ∀ runtime ∈ node.alive, runtime.run = teardown.run → runtime.handle = teardown.handle) :
    PhaseSound node (.tearing teardown) := by
  refine ⟨fun _ _ same => (by cases same), ?_, fun _ same => (by cases same)⟩
  rintro _ (same | same)
  · cases same
    exact ⟨bound, held⟩
  · cases same

theorem PhaseSound.confirms {teardown : Teardown} (bound : teardown.run ≤ node.started)
    (held : ∀ runtime ∈ node.alive, runtime.run = teardown.run → runtime.handle = teardown.handle) :
    PhaseSound node (.confirming teardown) := by
  refine ⟨fun _ _ same => (by cases same), ?_, fun _ same => (by cases same)⟩
  rintro _ (same | same)
  · cases same
  · cases same
    exact ⟨bound, held⟩

theorem PhaseSound.drops {teardown : Teardown} (bound : teardown.run ≤ node.started)
    (gone : ∀ runtime ∈ node.alive, runtime.run ≠ teardown.run) :
    PhaseSound node (.dropping teardown) := by
  refine ⟨fun _ _ same => (by cases same),
    fun _ same => (by rcases same with same | same <;> cases same), ?_⟩
  intro _ same
  cases same
  exact ⟨bound, gone⟩

/-- A phase stays sound while runtimes only end, and starts are only counted up. -/
theorem PhaseSound.shrink {next : RuntimeNode} {phase : Phase} (sound : PhaseSound node phase)
    (fewer : ∀ runtime ∈ next.alive, runtime ∈ node.alive ∨ node.started < runtime.run)
    (more : node.started ≤ next.started) : PhaseSound next phase := by
  constructor
  · intro handle run same
    obtain ⟨bound, held⟩ := sound.settling handle run same
    refine ⟨bound.trans more, fun runtime member named => ?_⟩
    rcases fewer runtime member with old | new
    · exact held runtime old named
    · omega
  · intro teardown same
    obtain ⟨bound, held⟩ := sound.tearing teardown same
    refine ⟨bound.trans more, fun runtime member named => ?_⟩
    rcases fewer runtime member with old | new
    · exact held runtime old named
    · omega
  · intro teardown same
    obtain ⟨bound, gone⟩ := sound.dropping teardown same
    refine ⟨bound.trans more, fun runtime member => ?_⟩
    rcases fewer runtime member with old | new
    · exact gone runtime old
    · omega

/-- A node in which only runtimes have ended and one process has moved on. -/
theorem NodeSound.move {next : RuntimeNode} (sound : NodeSound node) {process : Nat}
    {phase : Phase} (entry : next.entry = node.entry) (started : next.started = node.started)
    (fewer : ∀ runtime ∈ next.alive, runtime ∈ node.alive)
    (phases : next.phase = (node.move process phase).phase)
    (moved : PhaseSound next phase) : NodeSound next := by
  refine ⟨?_, ?_, ?_⟩
  · intro held recorded
    rw [started]
    exact sound.last held (entry ▸ recorded)
  · intro runtime member
    rw [entry]
    exact sound.recorded runtime (fewer runtime member)
  · intro other
    rw [phases]
    unfold RuntimeNode.move
    dsimp only
    split
    · exact moved
    · exact (sound.phases other).shrink (fun runtime member => .inl (fewer runtime member))
        (le_of_eq started.symm)

/-- With no runtime alive, a start leaves exactly its own runtime, recorded. -/
theorem NodeSound.start {process : Nat} {backend : String} {outcome : Start}
    (sound : NodeSound node) (alone : node.alive = []) (kept : outcome ≠ .raisedAfterwards) :
    NodeSound (node.start token process backend outcome) := by
  unfold RuntimeNode.start
  dsimp only
  split
  · exact sound
  · cases outcome with
    | raisedAfterwards => exact absurd rfl kept
    | raisedBefore => exact sound
    | started =>
        refine ⟨fun entry recorded => (by cases recorded; rfl), ?_, ?_⟩
        · intro runtime member
          simp only [alone, List.mem_singleton] at member
          subst member
          exact ⟨_, rfl, rfl, rfl⟩
        · intro other
          have grown : ∀ runtime ∈ ([⟨⟨backend, token⟩, node.started + 1⟩] : List LiveRuntime),
              runtime ∈ node.alive ∨ node.started < runtime.run := by
            intro runtime member
            rw [List.mem_singleton.mp member]
            exact .inr (Nat.lt_succ_self _)
          simp only [alone, RuntimeNode.move]
          split
          · constructor
            · intro handle run same
              cases same
              refine ⟨le_refl _, fun runtime member named => ?_⟩
              rw [List.mem_singleton.mp member]
            · rintro teardown (same | same) <;> cases same
            · intro teardown same
              cases same
          · exact (sound.phases other).shrink grown (Nat.le_succ _)

/-- Nothing alive, the record may go. -/
theorem NodeSound.forget (sound : NodeSound node) (next : RuntimeNode)
    (entry : next.entry = none) (alone : next.alive = []) (started : next.started = node.started)
    (phases : next.phase = node.phase) : NodeSound next := by
  refine ⟨fun held recorded => ?_, fun runtime member => ?_, fun process => ?_⟩
  · rw [entry] at recorded
    cases recorded
  · rw [alone] at member
    cases member
  · rw [phases]
    refine (sound.phases process).shrink (fun runtime member => ?_) (le_of_eq started.symm)
    rw [alone] at member
    cases member

/-- A launch that goes on finds no runtime alive. -/
theorem NodeSound.cleared {force : Bool} {answers : BackendAnswers} (sound : NodeSound node)
    (passed : (node.cleared force answers).2 = true) :
    NodeSound (node.cleared force answers).1 ∧ (node.cleared force answers).1.alive = [] := by
  unfold RuntimeNode.cleared at passed ⊢
  cases recorded : node.entry with
  | none =>
      have alone : node.alive = [] := by
        refine List.eq_nil_iff_forall_not_mem.mpr fun runtime member => ?_
        obtain ⟨entry, held, _⟩ := sound.recorded runtime member
        rw [recorded] at held
        cases held
      exact ⟨sound, alone⟩
  | some existing =>
      -- whatever is alive has the recorded handle
      have handled : ∀ runtime ∈ node.alive, runtime.handle = existing.handle := by
        intro runtime member
        obtain ⟨entry, held, same, _⟩ := sound.recorded runtime member
        rw [recorded, Option.some.injEq] at held
        rw [held, same]
      rw [recorded] at passed
      dsimp only at passed ⊢
      split_ifs at passed ⊢ with unreachable plain silent running unproven
      · have alone : node.alive = [] := List.eq_nil_iff_forall_not_mem.mpr fun runtime member =>
          present_eq_false (Bool.not_eq_true _ ▸ running) member (handled runtime member)
        exact ⟨sound.forget { node with entry := none } rfl alone rfl rfl, alone⟩
      · have proven : (node.terminateProven existing.handle answers).2 = true := by
          simpa using unproven
        have alone : (node.terminateProven existing.handle answers).1.alive = [] := by
          refine List.eq_nil_iff_forall_not_mem.mpr fun runtime member => ?_
          have gone := terminateProven_absent proven member
          rw [terminateProven_fields] at member
          exact gone (handled runtime (killed_alive member).1)
        refine ⟨sound.forget _ rfl alone ?_ ?_, alone⟩
        · rw [terminateProven_fields]
          exact killed_started _ _
        · rw [terminateProven_fields]
          exact killed_phase _ _

/-- Killing what is recorded keeps the record. -/
theorem NodeSound.killed (sound : NodeSound node) (handle : RuntimeHandle) (outcome : Kill) :
    NodeSound (node.killed handle outcome) := by
  refine ⟨?_, ?_, fun other => ?_⟩
  · intro entry held
    rw [killed_started]
    exact sound.last entry (by rwa [killed_entry] at held)
  · intro runtime member
    rw [killed_entry]
    exact sound.recorded runtime (killed_alive member).1
  · rw [killed_phase]
    exact (sound.phases other).shrink (fun runtime member => .inl (killed_alive member).1)
      (by rw [killed_started])

theorem NodeSound.launchSection {process : Nat} {backend : String} {force : Bool}
    {answers : BackendAnswers} (sound : NodeSound node)
    (kept : (node.cleared force answers).2 = true → answers.start ≠ .raisedAfterwards ∨
      (node.cleared force answers).1.present { backend := backend, token := token } = true) :
    NodeSound (node.launchSection token process backend force answers) := by
  unfold RuntimeNode.launchSection
  dsimp only
  split
  · rename_i passed
    obtain ⟨bare, alone⟩ := sound.cleared passed
    refine bare.start alone ((kept passed).resolve_right fun present => ?_)
    unfold RuntimeNode.present at present
    rw [alone] at present
    cases present
  · rename_i refused
    rcases cleared_refused (Bool.not_eq_true _ ▸ refused) with same | ⟨existing, _, same⟩
    · rw [same]
      exact sound
    · rw [same]
      exact sound.killed existing.handle answers.kill

/-- The step drops no entry but that of the runtime it tears down: no start came after it. -/
def OwnDrop (node : RuntimeNode) (action : RuntimeAction) : Prop :=
  ∀ teardown entry, Drops node action teardown entry → node.started = teardown.run

theorem NodeSound.act (sound : NodeSound node) {action : RuntimeAction}
    (own : OwnDrop node action) (kept : ¬ LosesStart node token action) :
    NodeSound (node.act token action) := by
  cases action with
  | launch process backend force answers =>
      unfold RuntimeNode.act
      dsimp only
      split
      · rename_i idle
        refine sound.launchSection fun passed => ?_
        by_contra lost
        rw [not_or, ne_eq, not_not, Bool.not_eq_true] at lost
        exact kept ⟨process, backend, force, answers, rfl, idle, passed, lost.2, lost.1⟩
      · exact sound
  | settle process settled =>
      unfold RuntimeNode.act
      dsimp only
      split
      · rename_i handle run stands
        split
        · exact sound.move rfl rfl (fun _ member => member) rfl .idle
        · obtain ⟨bound, held⟩ := (stands ▸ sound.phases process).settling handle run rfl
          exact sound.move rfl rfl (fun _ member => member) rfl (.tears bound held)
      · exact sound
  | terminate process reachable =>
      unfold RuntimeNode.act
      dsimp only
      split
      · rename_i entry idle recorded
        split
        · refine sound.move rfl rfl (fun _ member => member) rfl
            (.tears (le_of_eq (sound.last entry recorded)) fun runtime member _ => ?_)
          obtain ⟨other, held, handle, _⟩ := sound.recorded runtime member
          rw [recorded, Option.some.injEq] at held
          rw [held, handle]
        · exact sound
      · exact sound
  | kill process outcome =>
      unfold RuntimeNode.act
      dsimp only
      split
      · rename_i teardown stands
        obtain ⟨bound, held⟩ := (stands ▸ sound.phases process).tearing teardown (.inl rfl)
        refine sound.move (by simp) (by simp) (fun _ member => (killed_alive member).1)
          (by unfold RuntimeNode.move; rw [killed_phase]) ?_
        by_cases clean : outcome = .clean
        · rw [if_pos clean]
          refine .drops (by simpa using bound) fun runtime member named => ?_
          obtain ⟨old, gone⟩ := killed_alive member
          exact gone (by rw [clean]; exact Kill.noConfusion) (held runtime old named)
        · rw [if_neg clean]
          exact .confirms (by simpa using bound) fun runtime member named =>
            held runtime (killed_alive member).1 named
      · exact sound
  | confirm process inspects =>
      unfold RuntimeNode.act
      dsimp only
      split
      · rename_i teardown stands
        obtain ⟨bound, held⟩ := (stands ▸ sound.phases process).tearing teardown (.inr rfl)
        split
        · rename_i absent
          simp only [Bool.and_eq_true, Bool.not_eq_true'] at absent
          exact sound.move rfl rfl (fun _ member => member) rfl (.drops bound
            fun runtime member named =>
              present_eq_false absent.2 member (held runtime member named))
        · exact sound.move rfl rfl (fun _ member => member) rfl .idle
      · exact sound
  | drop process =>
      unfold RuntimeNode.act
      dsimp only
      split
      · rename_i teardown stands
        have gone := ((stands ▸ sound.phases process).dropping teardown rfl).2
        unfold RuntimeNode.dropSection
        cases recorded : node.entry with
        | none => exact sound.move rfl rfl (fun _ member => member) rfl .idle
        | some current =>
            dsimp only
            split
            · exact sound.move rfl rfl (fun _ member => member) rfl .idle
            · rename_i matched
              have mine : node.started = teardown.run := own teardown current
                ⟨process, rfl, stands, recorded, fun byOperator => by simpa [byOperator] using matched⟩
              -- what is alive is recorded, so of the last start, which is the one torn down
              have alone : node.alive = [] := by
                refine List.eq_nil_iff_forall_not_mem.mpr fun runtime member => ?_
                obtain ⟨entry, held, _, run⟩ := sound.recorded runtime member
                exact gone runtime member
                  (run.symm.trans ((sound.last entry held).trans mine))
              have bare := sound.forget { node with entry := none } rfl alone rfl rfl
              exact bare.move rfl rfl (fun _ member => member) rfl .idle
      · exact sound
  | exit run =>
      have fewer : ∀ runtime ∈ node.alive.filter (·.run ≠ run), runtime ∈ node.alive :=
        fun runtime member => List.mem_of_mem_filter member
      refine ⟨sound.last, fun runtime member => sound.recorded runtime (fewer runtime member),
        fun process => (sound.phases process).shrink
          (fun runtime member => .inl (fewer runtime member)) (le_refl _)⟩

theorem empty_sound : NodeSound RuntimeNode.empty :=
  ⟨fun _ recorded => (by cases recorded), fun _ member => (by cases member), fun _ => .idle⟩

end Schedules

/-- In every state of the schedule each live runtime is recorded, and no teardown drops the
handle of a later runtime. -/
def NoOrphans (token : String) (actions : List RuntimeAction) : Prop :=
  (∀ before rest, actions = before ++ rest → (RuntimeNode.empty.after token before).Recorded) ∧
  ∀ before action rest, actions = before ++ action :: rest → ∀ teardown entry,
    Drops (RuntimeNode.empty.after token before) action teardown entry → entry.run = teardown.run

/-- A launch that loses its runtime leaves it alive with nothing recorded. -/
theorem losesStart_unrecorded {token : String} {node : RuntimeNode} {action : RuntimeAction}
    (lost : LosesStart node token action) : ¬ (node.act token action).Recorded := by
  obtain ⟨process, backend, force, answers, rfl, idle, passed, absent, raised⟩ := lost
  intro recorded
  have reached : node.act token (.launch process backend force answers) =
      (node.cleared force answers).1.start token process backend .raisedAfterwards := by
    unfold RuntimeNode.act
    dsimp only
    rw [if_pos idle]
    unfold RuntimeNode.launchSection
    dsimp only
    rw [if_pos passed, raised]
  rw [reached] at recorded
  unfold RuntimeNode.start at recorded
  simp only [absent, Bool.false_eq_true, ↓reduceIte] at recorded
  obtain ⟨entry, held, _⟩ := recorded _ List.mem_cons_self
  rw [cleared_entry passed] at held
  cases held

theorem lastRecorded_after (token : String) (actions : List RuntimeAction) :
    LastRecorded (RuntimeNode.empty.after token actions) := by
  induction actions using List.reverseRecOn with
  | nil => exact empty_sound.last
  | append_singleton before action ih =>
      rw [RuntimeNode.after, List.foldl_append]
      exact act_lastRecorded ih action

theorem sound_after {token : String} {actions : List RuntimeAction}
    (safe : ∀ before action rest, actions = before ++ action :: rest →
      OwnDrop (RuntimeNode.empty.after token before) action ∧
      ¬ LosesStart (RuntimeNode.empty.after token before) token action) :
    ∀ before rest, actions = before ++ rest → NodeSound (RuntimeNode.empty.after token before) := by
  intro before
  induction before using List.reverseRecOn with
  | nil => exact fun _ _ => empty_sound
  | append_singleton before action ih =>
      intro rest split
      rw [List.append_assoc] at split
      obtain ⟨own, kept⟩ := safe before action rest split
      rw [RuntimeNode.after, List.foldl_append]
      exact (ih (action :: rest) split).act own kept

/-- A schedule orphans no runtime exactly when no launch of a backend raises with its runtime
running, and every teardown that drops the record does so before another runtime of the Work
was started. -/
theorem no_orphans_iff (platform : Platform) (workRef : String) (actions : List RuntimeAction) :
    NoOrphans (tokenFor platform workRef) actions ↔
      ∀ before action rest, actions = before ++ action :: rest →
        OwnDrop (RuntimeNode.empty.after (tokenFor platform workRef) before) action ∧
        ¬ LosesStart (RuntimeNode.empty.after (tokenFor platform workRef) before)
          (tokenFor platform workRef) action := by
  constructor
  · rintro ⟨everRecorded, keeps⟩ before action rest split
    constructor
    · intro teardown entry drops
      have run := keeps before action rest split teardown entry drops
      obtain ⟨_, _, _, held, _⟩ := drops
      exact (lastRecorded_after _ before entry held).symm.trans run
    · intro lost
      have next := everRecorded (before ++ [action]) rest (by rw [split, List.append_assoc]; rfl)
      rw [RuntimeNode.after, List.foldl_append] at next
      exact losesStart_unrecorded lost next
  · intro safe
    refine ⟨fun before rest split => (sound_after safe before rest split).recorded, ?_⟩
    intro before action rest split teardown entry drops
    have mine := (safe before action rest split).1 teardown entry drops
    obtain ⟨_, _, _, held, _⟩ := drops
    exact (lastRecorded_after _ before entry held).trans mine

namespace Orphan

def answers : BackendAnswers :=
  { reachable := true, inspects := true, kill := .clean, start := .started }

/-- A runtime is started and an operator proves it gone; before the operator takes the lock
again, another launch starts and records the next one under the same token. -/
def schedule : List RuntimeAction :=
  [.launch 0 "tmux" false answers, .settle 0 true, .terminate 1 true, .kill 1 .clean,
    .launch 2 "tmux" false answers, .drop 1]

theorem runtime_orphaned : ¬ NoOrphans (tokenFor plainPlatform "work") schedule := by
  intro none
  have recorded := none.1 schedule [] (List.append_nil _).symm
  have orphan : (⟨⟨"tmux", tokenFor plainPlatform "work"⟩, 2⟩ : LiveRuntime) ∈
      (RuntimeNode.empty.after (tokenFor plainPlatform "work") schedule).alive := by decide
  obtain ⟨entry, held, _⟩ := recorded _ orphan
  have dropped : (RuntimeNode.empty.after (tokenFor plainPlatform "work") schedule).entry =
      Option.none := by decide
  rw [dropped] at held
  cases held

end Orphan

end Kawa
