import JamJet.Completion
import JamJet.Ir
import JamJet.RunOrder

/-! Workflows of decorated Python steps: the executor that walks them in process, the compiler to
the workflow the engine runs, and when the two execute the same steps. -/

namespace JamJet.StepWorkflow

open RunOrder

variable {σ : Type}

/-- A step over states `σ`; `fn` and the predicates of `next` are `none` where they raise. -/
structure StepDef (σ : Type) where
  name : String
  fnModule : String
  fnQualname : String
  fn : σ → Option σ
  next : List (String × (σ → Option Bool)) := []
  humanApproval : Bool := false
  retryPolicy : Option String := none
  model : Option String := none

structure WorkflowDef (σ : Type) where
  workflowId : String
  version : String
  startNode : String
  steps : List (StepDef σ)
  distinct : (steps.map StepDef.name).Nodup

section Executor

/-- The steps that some routing names: they do not fall through. -/
def branchTargets (steps : List (StepDef σ)) : List String :=
  steps.flatMap fun step => step.next.map (·.1)

def nextInOrder (stepOrder : List String) (current : String) : Option String :=
  stepOrder[stepOrder.idxOf current + 1]?

/-- The target of the first predicate that is true; one that raises is passed over. -/
def firstTrue (step : StepDef σ) (state : σ) : Option String :=
  (step.next.find? fun route => route.2 state = some true).map (·.1)

def resolveNext (step : StepDef σ) (state : σ) (stepOrder : List String)
    (branchTargets : List String) : Option String :=
  if step.next.isEmpty then
    if step.name ∈ branchTargets then none else nextInOrder stepOrder step.name
  else
    match firstTrue step state with
    | some target => some target
    | none => nextInOrder stepOrder step.name

/-- The step of the loop's next round, if there is one. -/
def stepAt (steps : List (StepDef σ)) (current : Option String) : Option (StepDef σ) :=
  current.bind fun name =>
    if name = "" ∨ name = "end" then none else steps.find? fun step => step.name = name

/-- The final state, the completed steps, and where the loop stands. -/
structure ExecutionResult (σ : Type) where
  state : σ
  events : List String
  current : Option String

/-- At most so many more rounds of the loop. -/
def executeSteps (steps : List (StepDef σ)) : ℕ → ExecutionResult σ → Option (ExecutionResult σ)
  | 0, r => some r
  | rounds + 1, r =>
      match stepAt steps r.current with
      | none => some r
      | some step => do
          let state ← step.fn r.state
          let current := resolveNext step state (steps.map StepDef.name) (branchTargets steps)
          executeSteps steps rounds ⟨state, r.events ++ [step.name], current⟩

def executeWorkflow (steps : List (StepDef σ)) (initialState : σ) (maxSteps : ℕ) :
    Option (ExecutionResult σ) :=
  executeSteps steps maxSteps ⟨initialState, [], steps.head?.map StepDef.name⟩

end Executor

section Compiler

def stepToNodeKind (step : StepDef σ) : Ir.NodeKind :=
  if step.humanApproval then .humanApproval
  else
    match step.model.filter (· ≠ "") with
    | some model => .model model none []
    | none => .pythonFn step.fnModule step.fnQualname false

/-- A node per step, an edge per routing target, and one to the next step where there is none. -/
def compileEdges : List (StepDef σ) → List Ir.EdgeDef
  | [] => []
  | step :: steps =>
      (if step.next.isEmpty then
        [{ src := step.name, dst := (steps.head?.map StepDef.name).getD "end" }]
      else step.next.map fun route => { src := step.name, dst := route.1 }) ++ compileEdges steps

def compileToIr (defn : WorkflowDef σ) : Ir.WorkflowIr where
  workflowId := defn.workflowId
  version := defn.version
  startNode := defn.startNode
  nodes := (defn.steps.map fun step =>
    (⟨step.name, { id := step.name, kind := stepToNodeKind step, retryPolicy := step.retryPolicy }⟩ :
      Σ _ : NodeId, Ir.NodeDef)).toFinmap
  edges := compileEdges defn.steps

end Compiler

section Engine

/-- The progress of a run in which the nodes have completed and nothing else has happened. -/
def progressOf (done : List NodeId) : ExecProgress := { completed := done.toFinset }

/-- The nodes are executed one after another, each when it is runnable. -/
inductive Executes (ir : WorkflowIr) : List NodeId → Prop
  | nil : Executes ir []
  | run {done : List NodeId} {node : NodeId} : Executes ir done → node ∈ ir.nodes.keys →
      (progressOf done).isRunnable ir node = true → Executes ir (done ++ [node])

/-- A run that is over: no node is left to execute. -/
structure ExecutesAll (ir : WorkflowIr) (run : List NodeId) : Prop where
  executes : Executes ir run
  finished : ∀ node ∈ ir.nodes.keys, (progressOf run).isRunnable ir node = false

def Leads (ir : WorkflowIr) (a b : NodeId) : Prop := ∃ e ∈ ir.edges, e.src = a ∧ e.dst = b

variable {ir : WorkflowIr} {done run : List NodeId} {node : NodeId}

/-- Without routing nodes no edge is ever dead. -/
theorem runnable_iff (hroutes : ∀ id def_, ir.nodes.lookup id = some def_ →
    ∀ branches, def_.kind ≠ .condition branches) :
    node ∈ ir.nodes.keys ∧ (progressOf done).isRunnable ir node = true ↔
      Ready ir.nodes.keys (Leads ir) done node := by
  have hlive : ∀ src dst, (progressOf done).edgeDead ir src dst = false := by
    intro src dst
    unfold ExecProgress.edgeDead
    split
    · rename_i hskipped
      exact absurd hskipped (by simp [progressOf])
    · split
      · rename_i branches _ hlookup
        exact absurd rfl (hroutes _ _ hlookup branches)
      · rfl
  have hsources : (ExecProgress.inEdges ir node = [] ∨
      (∃ e ∈ ExecProgress.inEdges ir node, (progressOf done).edgeDead ir e.src node = false) ∧
        ∀ e ∈ ExecProgress.inEdges ir node, (progressOf done).edgeDead ir e.src node = false →
          e.src ∈ (progressOf done).completed) ↔ ∀ src, Leads ir src node → src ∈ done := by
    simp only [hlive, and_true, true_implies]
    constructor
    · rintro (hnil | ⟨_, hall⟩) src ⟨e, he, hsrc, hdst⟩
      · have hin : e ∈ ExecProgress.inEdges ir node := ExecProgress.mem_inEdges.mpr ⟨he, hdst⟩
        rw [hnil] at hin
        cases hin
      · have hdone := hall e (ExecProgress.mem_inEdges.mpr ⟨he, hdst⟩)
        rw [hsrc] at hdone
        simpa [progressOf] using hdone
    · intro hall
      have hdone : ∀ e ∈ ExecProgress.inEdges ir node, e.src ∈ (progressOf done).completed := by
        intro e he
        obtain ⟨hedge, hdst⟩ := ExecProgress.mem_inEdges.mp he
        simpa [progressOf] using hall e.src ⟨e, hedge, rfl, hdst⟩
      cases hin : ExecProgress.inEdges ir node with
      | nil => exact .inl rfl
      | cons e edges => exact .inr ⟨⟨e, List.mem_cons_self⟩, fun e he => hdone e (hin ▸ he)⟩
  constructor
  · rintro ⟨hnode, hrun⟩
    obtain ⟨_, hfresh, _, hin⟩ := ExecProgress.isRunnable_iff.mp hrun
    exact ⟨hnode, by simpa [progressOf] using hfresh, hsources.mp hin⟩
  · intro hready
    refine ⟨hready.node, ExecProgress.isRunnable_iff.mpr ⟨by simp [progressOf], ?_,
      by simp [progressOf], hsources.mpr hready.sources⟩⟩
    simpa [progressOf] using hready.fresh

theorem executesAll_iff (hroutes : ∀ id def_, ir.nodes.lookup id = some def_ →
    ∀ branches, def_.kind ≠ .condition branches) :
    ExecutesAll ir run ↔ Complete ir.nodes.keys (Leads ir) run := by
  have hexecutes : Executes ir run ↔ Run ir.nodes.keys (Leads ir) run := by
    constructor
    · intro h
      induction h with
      | nil => exact .nil
      | run _ hnode hrun ih => exact .snoc ih ((runnable_iff hroutes).mp ⟨hnode, hrun⟩)
    · intro h
      induction h with
      | nil => exact .nil
      | snoc _ hready ih =>
        obtain ⟨hnode, hrun⟩ := (runnable_iff hroutes).mpr hready
        exact .run ih hnode hrun
  constructor
  · intro h
    refine ⟨hexecutes.mp h.executes, fun node hready => ?_⟩
    obtain ⟨hnode, hrun⟩ := (runnable_iff hroutes).mpr hready
    exact absurd (h.finished node hnode) (by simp [hrun])
  · intro h
    refine ⟨hexecutes.mpr h.runs, fun node hnode => ?_⟩
    have hnot := fun hrun => h.stuck node ((runnable_iff hroutes).mp ⟨hnode, hrun⟩)
    simpa using hnot

end Engine

section Agreement

variable (steps : List (StepDef σ))

/-- On the state after the step its first true predicate is for the other, or it falls through to
the other. -/
def PassesTo (step other : StepDef σ) (state : σ) : Prop :=
  match firstTrue step state with
  | some target => target = other.name
  | none => (step.next = [] → step.name ∉ branchTargets steps) ∧
      nextInOrder (steps.map StepDef.name) step.name = some other.name

/-- On the state after the step its first true predicate is for no step, or there is none to fall
through to. -/
def EndsAt (step : StepDef σ) (state : σ) : Prop :=
  match firstTrue step state with
  | some target => stepAt steps (some target) = none
  | none => (step.next = [] ∧ step.name ∈ branchTargets steps) ∨
      stepAt steps (nextInOrder (steps.map StepDef.name) step.name) = none

/-- From the state, each step of the path passes on to the next one, and the last ends. -/
def RoutedFrom : σ → List (StepDef σ) → Prop
  | _, [] => True
  | s, [step] => ∃ s', step.fn s = some s' ∧ EndsAt steps step s'
  | s, step :: other :: path =>
      ∃ s', step.fn s = some s' ∧ PassesTo steps step other s' ∧ RoutedFrom s' (other :: path)

structure Routed (s : σ) (path : List (StepDef σ)) : Prop where
  walkable : ∀ step ∈ path, stepAt steps (some step.name) = some step
  first : path.head? = stepAt steps (steps.head?.map StepDef.name)
  routed : RoutedFrom steps s path

/-- The path the executor walks. -/
def Walks : Option String → σ → List (StepDef σ) → Prop
  | current, _, [] => stepAt steps current = none
  | current, s, step :: path => stepAt steps current = some step ∧ ∃ s', step.fn s = some s' ∧
      Walks (resolveNext step s' (steps.map StepDef.name) (branchTargets steps)) s' path

variable {steps : List (StepDef σ)} {step other : StepDef σ} {s : σ} {current : Option String}
  {path : List (StepDef σ)}

theorem stepAt_eq_some (h : stepAt steps current = some step) :
    current = some step.name ∧ step ∈ steps := by
  obtain ⟨name, rfl, hname⟩ := Option.bind_eq_some_iff.mp h
  split at hname
  · cases hname
  · have hfound := List.find?_some hname
    exact ⟨by rw [of_decide_eq_true hfound], List.mem_of_find?_eq_some hname⟩

theorem stepAt_name (h : stepAt steps current = some step) :
    stepAt steps (some step.name) = some step := (stepAt_eq_some h).1 ▸ h

theorem firstTrue_of_next_nil (h : step.next = []) : firstTrue step s = none := by
  simp [firstTrue, h]

theorem passesTo_iff (hother : stepAt steps (some other.name) = some other) :
    stepAt steps (resolveNext step s (steps.map StepDef.name) (branchTargets steps)) = some other ↔
      PassesTo steps step other s := by
  have hsome : ∀ current, stepAt steps current = some other ↔ current = some other.name :=
    fun current => ⟨fun h => (stepAt_eq_some h).1, fun h => h ▸ hother⟩
  unfold resolveNext PassesTo
  by_cases hnext : step.next = []
  · rw [firstTrue_of_next_nil hnext, hnext, List.isEmpty_nil, if_pos rfl, hsome]
    split <;> simp [*]
  · rw [List.isEmpty_eq_false_iff.mpr hnext, if_neg Bool.false_ne_true, hsome]
    cases firstTrue step s <;> simp [hnext]

theorem endsAt_iff :
    stepAt steps (resolveNext step s (steps.map StepDef.name) (branchTargets steps)) = none ↔
      EndsAt steps step s := by
  unfold resolveNext EndsAt
  by_cases hnext : step.next = []
  · rw [firstTrue_of_next_nil hnext, hnext, List.isEmpty_nil, if_pos rfl]
    split
    · rename_i htarget
      simp [htarget, stepAt]
    · rename_i htarget
      simp [htarget]
  · rw [List.isEmpty_eq_false_iff.mpr hnext, if_neg Bool.false_ne_true]
    cases firstTrue step s <;> simp [hnext]

theorem walks_iff : Walks steps current s path ↔
    (∀ step ∈ path, stepAt steps (some step.name) = some step) ∧
      path.head? = stepAt steps current ∧ RoutedFrom steps s path := by
  induction path generalizing current s with
  | nil => simp [Walks, RoutedFrom, eq_comm]
  | cons step path ih =>
    rw [Walks, List.head?_cons, eq_comm]
    simp only [ih, List.forall_mem_cons]
    constructor
    · rintro ⟨hstep, s', hfn, hwalk, hhead, hrouted⟩
      refine ⟨⟨stepAt_name hstep.symm, hwalk⟩, hstep, ?_⟩
      cases path with
      | nil => exact ⟨s', hfn, endsAt_iff.mp hhead.symm⟩
      | cons other path =>
        exact ⟨s', hfn, (passesTo_iff (hwalk other List.mem_cons_self)).mp hhead.symm, hrouted⟩
    · rintro ⟨⟨_, hwalk⟩, hstep, hrouted⟩
      refine ⟨hstep, ?_⟩
      cases path with
      | nil =>
        obtain ⟨s', hfn, hends⟩ := hrouted
        exact ⟨s', hfn, hwalk, (endsAt_iff.mpr hends).symm, trivial⟩
      | cons other path =>
        obtain ⟨s', hfn, hpasses, hrouted⟩ := hrouted
        exact ⟨s', hfn, hwalk,
          ((passesTo_iff (hwalk other List.mem_cons_self)).mpr hpasses).symm, hrouted⟩

theorem walks_unique {path' : List (StepDef σ)} (h : Walks steps current s path)
    (h' : Walks steps current s path') : path = path' := by
  induction path generalizing current s path' with
  | nil =>
    cases path' with
    | nil => rfl
    | cons step path' => exact absurd (h.symm.trans h'.1) (by simp)
  | cons step path ih =>
    obtain ⟨hstep, s', hfn, hwalks⟩ := h
    cases path' with
    | nil => exact absurd (hstep.symm.trans h') (by simp)
    | cons step' path' =>
      obtain ⟨hstep', s'', hfn', hwalks'⟩ := h'
      cases hstep.symm.trans hstep'
      cases hfn.symm.trans hfn'
      rw [ih hwalks hwalks']

theorem executeSteps_walks {rounds : ℕ} {r r' : ExecutionResult σ}
    (hrun : executeSteps steps rounds r = some r') (hends : stepAt steps r'.current = none) :
    ∃ path, Walks steps r.current r.state path ∧ r'.events = r.events ++ path.map StepDef.name := by
  induction rounds generalizing r with
  | zero =>
    cases hrun
    exact ⟨[], hends, by simp⟩
  | succ rounds ih =>
    rw [executeSteps] at hrun
    split at hrun
    · rename_i hstep
      cases hrun
      exact ⟨[], hstep, by simp⟩
    · rename_i step hstep
      obtain ⟨s', hfn, hrest⟩ := Option.bind_eq_some_iff.mp hrun
      obtain ⟨path, hwalks, hevents⟩ := ih hrest
      exact ⟨step :: path, ⟨hstep, s', hfn, hwalks⟩, by simp [hevents]⟩

theorem compileToIr_lookup (defn : WorkflowDef σ) {id : NodeId} {node : JamJet.NodeDef}
    (h : (compileToIr defn).scheduled.nodes.lookup id = some node) :
    ∃ step ∈ defn.steps, node.kind = (stepToNodeKind step).scheduled := by
  rw [Ir.WorkflowIr.lookup_scheduled, compileToIr, Finmap.dlookup_list_toFinmap] at h
  obtain ⟨found, hfound, rfl⟩ := Option.map_eq_some_iff.mp h
  obtain ⟨step, hstep, heq⟩ := List.mem_map.mp (List.of_mem_dlookup hfound)
  cases heq
  exact ⟨step, hstep, rfl⟩

theorem compileToIr_no_routes (defn : WorkflowDef σ) (id : NodeId) (node : JamJet.NodeDef)
    (h : (compileToIr defn).scheduled.nodes.lookup id = some node)
    (branches : List ConditionalBranch) : node.kind ≠ .condition branches := by
  obtain ⟨step, _, hkind⟩ := compileToIr_lookup defn h
  rw [hkind, stepToNodeKind]
  split
  · simp [Ir.NodeKind.scheduled]
  · split <;> simp [Ir.NodeKind.scheduled]

end Agreement

/-- A step that leaves the state as it is. -/
def plainStep (name : String) : StepDef ℕ :=
  { name, fnModule := "app", fnQualname := name, fn := some }

/-- Two steps one after the other. -/
def straight : WorkflowDef ℕ where
  workflowId := "straight"
  version := "0.1.0"
  startNode := "fetch"
  steps := [plainStep "fetch", plainStep "answer"]
  distinct := by decide

/-- A step with two targets, of which the state chooses the first. -/
def branching : WorkflowDef ℕ where
  workflowId := "branching"
  version := "0.1.0"
  startNode := "choose"
  steps :=
    [{ plainStep "choose" with
        next := [("small", fun n => some (decide (n < 10))), ("large", fun n => some (decide (10 ≤ n)))] },
      plainStep "small", plainStep "large"]
  distinct := by decide

end JamJet.StepWorkflow
