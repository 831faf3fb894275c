import JamJet.JavaText
import JamJet.StepWalk
import JamJet.StepWorkflow

/-! Workflows of the Java SDK: the walker that runs them in process, the compiler to the workflow the
engine runs, and when the two run the same steps. -/

namespace JamJet.JavaWorkflow

open RunOrder
open StepWalk
open StepWorkflow (ExecutesAll Leads executesAll_iff)

variable {σ : Type}

/-- The handler and the predicates are `none` where they throw. -/
structure Step (σ : Type) where
  name : String
  handler : σ → Option σ
  nextConditions : List (String × (σ → Option Bool)) := []
  defaultNext : Option String := none
  timeout : Option String := none
  retryPolicy : Option String := none

structure Workflow (σ : Type) where
  name : String
  version : String
  steps : List (Step σ)
  distinct : (steps.map Step.name).Nodup

section Walker

/-- The target of the first predicate that holds, or the default; `none` where a predicate throws. -/
def resolveNext (step : Step σ) (state : σ) : Option (Option String) :=
  firstMatch step.nextConditions
where
  firstMatch : List (String × (σ → Option Bool)) → Option (Option String)
    | [] => some step.defaultNext
    | (target, condition) :: rest => do
        if ← condition state then return some target else firstMatch rest

/-- The step after this one in declaration order, or the end. -/
def nextInOrder (steps : List (Step σ)) (step : Step σ) : String :=
  ((steps.map Step.name)[(steps.map Step.name).idxOf step.name + 1]?).getD "end"

def stepAt (steps : List (Step σ)) (current : String) : Option (Step σ) :=
  if current = "end" then none else steps.find? fun step => step.name = current

/-- One round of the loop: the handler, and the name of the next step. -/
def fire (steps : List (Step σ)) (step : Step σ) (state : σ) : Option (σ × String) := do
  let state ← step.handler state
  let next ← resolveNext step state
  return (state, next.getD (nextInOrder steps step))

def walker (steps : List (Step σ)) : Walker σ (Step σ) String := ⟨stepAt steps, fire steps⟩

/-- The safety cap. -/
def maxSteps (steps : List (Step σ)) : ℕ := steps.length * 10

/-- `none` where the workflow has no steps or something throws. -/
def run (wf : Workflow σ) (initialState : σ) : Option (Position σ (Step σ) String) := do
  let start ← wf.steps.head?
  (walker wf.steps).run (maxSteps wf.steps) ⟨initialState, [], start.name⟩

end Walker

section Compiler

/-- An `int` after arithmetic. -/
def wrap (n : ℤ) : ℤ := Int.bmod n (2 ^ 32)

/-- Seconds; `none` for a text that is not a number. -/
def parseTimeout : Option String → Option (Option ℤ)
  | none => some none
  | some timeout =>
      let s := JavaText.strip timeout.toList
      match s.getLast? with
      | some 's' => (JavaText.parseInt s.dropLast).map some
      | some 'm' => (JavaText.parseInt s.dropLast).map fun n => some (wrap (n * 60))
      | some 'h' => (JavaText.parseInt s.dropLast).map fun n => some (wrap (n * 3600))
      | _ => (JavaText.parseInt s).map some

/-- An edge per condition, without the condition, and one to the next step where there is none. -/
def compileEdges : List (Step σ) → List Ir.EdgeDef
  | [] => []
  | step :: steps =>
      (if step.nextConditions.isEmpty then
        [{ src := step.name, dst := (steps.head?.map Step.name).getD "end" }]
      else step.nextConditions.map fun entry => { src := step.name, dst := entry.1 }) ++
        compileEdges steps

def compileWorkflow (wf : Workflow σ) : Option Ir.WorkflowIr := do
  let start ← wf.steps.head?
  let _ ← wf.steps.mapM fun step => parseTimeout step.timeout
  return {
    workflowId := wf.name
    version := wf.version
    startNode := start.name
    nodes := (wf.steps.map fun step =>
      (⟨step.name,
        { id := step.name
          kind := .pythonFn "dev.jamjet.workflow" step.name false
          retryPolicy := step.retryPolicy }⟩ : Σ _ : NodeId, Ir.NodeDef)).toFinmap
    edges := compileEdges wf.steps }

end Compiler

section Agreement

variable (steps : List (Step σ))

/-- The handler returns, and on the state after it the other step is the first target whose
predicate holds, or the default, or the next one in order where there is no default. -/
def PassesTo (step : Step σ) (s : σ) (other : Step σ) (s' : σ) : Prop :=
  step.handler s = some s' ∧ stepAt steps other.name = some other ∧
    match resolveNext step s' with
    | none => False
    | some (some target) => target = other.name
    | some none => nextInOrder steps step = other.name

/-- The handler returns, and what comes next is no step. -/
def EndsAt (step : Step σ) (s : σ) : Prop :=
  ∃ s', step.handler s = some s' ∧
    match resolveNext step s' with
    | none => False
    | some (some target) => stepAt steps target = none
    | some none => stepAt steps (nextInOrder steps step) = none

/-- A path from the first step along the routing of its steps. -/
structure Routed (s : σ) (path : List (Step σ)) : Prop where
  first : path.head? = (steps.head?.map Step.name).bind (stepAt steps)
  linked : StepWalk.Linked (PassesTo steps) (EndsAt steps) s path

variable {steps} {step other : Step σ} {s s' : σ} {current : String}

theorem stepAt_eq_some (h : stepAt steps current = some step) :
    current = step.name ∧ step ∈ steps := by
  unfold stepAt at h
  split at h
  · cases h
  · have hfound := List.find?_some h
    exact ⟨(of_decide_eq_true hfound).symm, List.mem_of_find?_eq_some h⟩

theorem stepAt_iff : stepAt steps current = some other ↔
    stepAt steps other.name = some other ∧ current = other.name := by
  constructor
  · intro h
    obtain ⟨hname, -⟩ := stepAt_eq_some h
    exact ⟨hname ▸ h, hname⟩
  · rintro ⟨h, rfl⟩
    exact h

theorem fire_eq_some {c : String} : fire steps step s = some (s', c) ↔
    step.handler s = some s' ∧ ∃ next, resolveNext step s' = some next ∧
      next.getD (nextInOrder steps step) = c := by
  unfold fire
  cases step.handler s with
  | none => simp
  | some t =>
    cases hnext : resolveNext step t with
    | none =>
      simp only [Option.bind_eq_bind, Option.bind_some, hnext, Option.bind_none, reduceCtorEq,
        false_iff, not_and, Option.some.injEq]
      rintro rfl ⟨next, hsome, -⟩
      rw [hnext] at hsome
      cases hsome
    | some next =>
      simp only [Option.bind_eq_bind, Option.bind_some, hnext, Option.pure_def, Option.some.injEq,
        Prod.mk.injEq]
      constructor
      · rintro ⟨rfl, rfl⟩
        exact ⟨rfl, next, hnext, rfl⟩
      · rintro ⟨rfl, next', hsome, rfl⟩
        rw [hnext] at hsome
        cases hsome
        exact ⟨rfl, rfl⟩

theorem passesTo_iff : PassesTo steps step s other s' ↔
    ∃ c, fire steps step s = some (s', c) ∧ stepAt steps c = some other := by
  simp only [fire_eq_some]
  unfold PassesTo
  constructor
  · rintro ⟨hhandler, hother, hnext⟩
    cases hresolve : resolveNext step s' with
    | none => simp [hresolve] at hnext
    | some next =>
      refine ⟨_, ⟨hhandler, next, rfl, rfl⟩, stepAt_iff.mpr ⟨hother, ?_⟩⟩
      cases next with
      | none => simpa [hresolve] using hnext
      | some target => simpa [hresolve] using hnext
  · rintro ⟨c, ⟨hhandler, next, hresolve, rfl⟩, hstep⟩
    obtain ⟨hother, hname⟩ := stepAt_iff.mp hstep
    refine ⟨hhandler, hother, ?_⟩
    cases next with
    | none => simpa [hresolve] using hname
    | some target => simpa [hresolve] using hname

theorem endsAt_iff : EndsAt steps step s ↔
    ∃ s' c, fire steps step s = some (s', c) ∧ stepAt steps c = none := by
  simp only [fire_eq_some]
  unfold EndsAt
  constructor
  · rintro ⟨s', hhandler, hnext⟩
    cases hresolve : resolveNext step s' with
    | none => simp [hresolve] at hnext
    | some next =>
      refine ⟨s', _, ⟨hhandler, next, hresolve, rfl⟩, ?_⟩
      cases next with
      | none => simpa [hresolve] using hnext
      | some target => simpa [hresolve] using hnext
  · rintro ⟨s', c, ⟨hhandler, next, hresolve, rfl⟩, hstep⟩
    refine ⟨s', hhandler, ?_⟩
    cases next with
    | none => simpa [hresolve] using hstep
    | some target => simpa [hresolve] using hstep

theorem compileWorkflow_eq_some {wf : Workflow σ} {ir : Ir.WorkflowIr}
    (h : compileWorkflow wf = some ir) : ir.edges = compileEdges wf.steps ∧
      ir.nodes = (wf.steps.map fun step =>
        (⟨step.name,
          { id := step.name
            kind := .pythonFn "dev.jamjet.workflow" step.name false
            retryPolicy := step.retryPolicy }⟩ : Σ _ : NodeId, Ir.NodeDef)).toFinmap := by
  obtain ⟨start, -, h⟩ := Option.bind_eq_some_iff.mp h
  obtain ⟨timeouts, -, h⟩ := Option.bind_eq_some_iff.mp h
  cases h
  exact ⟨rfl, rfl⟩

theorem compileWorkflow_no_routes {wf : Workflow σ} {ir : Ir.WorkflowIr}
    (h : compileWorkflow wf = some ir) (id : NodeId) (node : JamJet.NodeDef)
    (hnode : ir.scheduled.nodes.lookup id = some node) (branches : List ConditionalBranch) :
    node.kind ≠ .condition branches := by
  rw [Ir.WorkflowIr.lookup_scheduled, (compileWorkflow_eq_some h).2,
    Finmap.dlookup_list_toFinmap] at hnode
  obtain ⟨found, hfound, rfl⟩ := Option.map_eq_some_iff.mp hnode
  obtain ⟨step, -, heq⟩ := List.mem_map.mp (List.of_mem_dlookup hfound)
  cases heq
  exact JamJet.NodeKind.noConfusion

theorem routed_of_run {wf : Workflow σ} {initialState : σ} {p : Position σ (Step σ) String}
    (hrun : run wf initialState = some p) (hends : stepAt wf.steps p.cursor = none)
    {path : List (Step σ)} : Routed wf.steps initialState path ↔ path = p.path := by
  obtain ⟨start, hstart, hwalk⟩ := Option.bind_eq_some_iff.mp hrun
  obtain ⟨walked, hwalks, hpath⟩ := (walker wf.steps).walks_of_run hwalk hends
  have hiff : ∀ path, (walker wf.steps).Walks start.name initialState path ↔
      Routed wf.steps initialState path := by
    intro path
    have hlinked : (walker wf.steps).Walks start.name initialState path ↔ _ :=
      Walker.walks_iff (fun _ _ _ _ => passesTo_iff) (fun _ _ => endsAt_iff)
    have hfirst : (wf.steps.head?.map Step.name).bind (stepAt wf.steps) =
        (walker wf.steps).stepAt start.name := by
      rw [hstart]
      rfl
    rw [hlinked, ← hfirst]
    exact ⟨fun h => ⟨h.1, h.2⟩, fun h => ⟨h.first, h.linked⟩⟩
  rw [← hiff, hpath, List.nil_append]
  constructor
  · exact fun h => h.unique hwalks
  · rintro rfl
    exact hwalks

end Agreement

/-- A step that leaves the state as it is. -/
def plainStep (name : String) : Step ℕ := { name, handler := some }

def straight : Workflow ℕ where
  name := "straight"
  version := "0.1.0"
  steps := [plainStep "fetch", plainStep "process"]
  distinct := by decide

/-- The first step goes on to the last one. -/
def skipping : Workflow ℕ where
  name := "skipping"
  version := "0.1.0"
  steps := [{ plainStep "fetch" with defaultNext := some "report" }, plainStep "repair",
    plainStep "report"]
  distinct := by decide

/-- What it is compiled to. -/
def skippingIr : Ir.WorkflowIr where
  workflowId := "skipping"
  version := "0.1.0"
  startNode := "fetch"
  nodes := (["fetch", "repair", "report"].map fun name =>
    (⟨name, { id := name, kind := .pythonFn "dev.jamjet.workflow" name false }⟩ :
      Σ _ : NodeId, Ir.NodeDef)).toFinmap
  edges := [{ src := "fetch", dst := "repair" }, { src := "repair", dst := "report" },
    { src := "report", dst := "end" }]

end JamJet.JavaWorkflow
