import FeatureRuntime.PermissionStubs
import FeatureRuntime.PermissionsManager

/-! Calls of generated stubs over the permission protocol: a stub that requests permissions defers
its native body to the grant, any other stub calls it at once. -/
namespace FeatureRuntime
open Jidl

/-- `isBlackListed`: the device id is handed out while its request is pending. -/
def isBlackListed (feature apiName : String) : Bool :=
  feature = "system.device" ∧ apiName = "getDeviceId"

/-- The permission protocol with the calls of stubs on live instances that have a callback. -/
structure Enforcement where
  manager : PermissionsManager := {}
  /-- The requests of stubs. -/
  calls : List (ℕ × CallableStub) := []
  /-- The requests that the host granted. -/
  granted : List ℕ := []
  /-- The stubs that called their native body at once. -/
  bodies : List CallableStub := []

inductive EnforcementOp
  /-- A script calls the stub on an instance; the allocator would place the request at `addr`. -/
  | call (stub : CallableStub) (inst : ℕ) (addr : ℤ)
  | manager (op : PermissionsOp)

namespace Enforcement

def grantedBy (m : PermissionsManager) : PermissionsOp → List ℕ
  | .grantPermissions addr =>
    if addr ∈ m.given then (m.perms[addr]?.map (·.request)).toList else []
  | _ => []

/-- The stub on an instance; calls on a detached instance or without a callback are not
followed. -/
def call (feature : String) (s : Enforcement) (stub : CallableStub) (inst : ℕ) (addr : ℤ) :
    Enforcement :=
  if s.manager.fault ∨ inst ∈ s.manager.detached ∨ s.manager.hasCb = false ∨
      s.manager.perms.contains addr = true then s
  else match stub.requests with
    | none => { s with bodies := stub :: s.bodies }
    | some _ =>
      { s with
        manager := s.manager.step (.requestPermissions inst addr)
        calls := (s.manager.nextRequest,stub) :: s.calls
        bodies := if isBlackListed feature stub.identifier then stub :: s.bodies else s.bodies }

def step (feature : String) (s : Enforcement) : EnforcementOp → Enforcement
  | .call stub inst addr => s.call feature stub inst addr
  | .manager op =>
    { s with
      manager := s.manager.step op
      granted := (if s.manager.fault then [] else grantedBy s.manager op) ++ s.granted }

def Admissible (stubs : List CallableStub) (s : Enforcement) : EnforcementOp → Prop
  | .call stub _ _ => stub ∈ stubs
  | .manager op => s.manager.Orderly op

/-- A native body with declared permissions runs only after the request for it was granted. -/
structure GrantedFirst (feature : String) (s : Enforcement) : Prop where
  noFault : s.manager.fault = false
  bodies : ∀ stub ∈ s.bodies, stub.body.node.declared ≠ [] → isBlackListed feature stub.identifier = true
  calls : ∀ q stub, (q,stub) ∈ s.calls → (q,PermissionsOutcome.granted) ∈ s.manager.outcomes → q ∈ s.granted

/-- Grants that are queued or carried out were decided by the host. -/
structure GrantsDecided (m : PermissionsManager) (granted : List ℕ) : Prop where
  outcomes : ∀ q, (q,PermissionsOutcome.granted) ∈ m.outcomes → q ∈ granted
  tasks : ∀ task ∈ m.queue ++ m.running, task.kind = .grant → task.request ∈ granted

structure Inv (feature : String) (s : Enforcement) : Prop where
  manager : s.manager.Inv
  decided : GrantsDecided s.manager s.granted
  bodies : ∀ stub ∈ s.bodies, stub.body.node.declared ≠ [] → isBlackListed feature stub.identifier = true

section Preservation

variable {m : PermissionsManager} {granted : List ℕ}

theorem GrantsDecided.mono (h : GrantsDecided m granted) (more : List ℕ) : GrantsDecided m (more ++ granted) :=
  ⟨fun q hq => List.mem_append_right _ (h.outcomes q hq),
    fun task ht hk => List.mem_append_right _ (h.tasks task ht hk)⟩

theorem GrantsDecided.addTask (h : GrantsDecided m granted) {task : PermissionsTask}
    (htask : task.kind = .grant → task.request ∈ granted) :
    ∀ t ∈ (m.queue ++ [task]) ++ m.running, t.kind = .grant → t.request ∈ granted := by
  intro t ht
  simp only [List.mem_append,List.mem_singleton] at ht
  rcases ht with (ht | rfl) | ht
  · exact h.tasks t (List.mem_append_left _ ht)
  · exact htask
  · exact h.tasks t (List.mem_append_right _ ht)

theorem GrantsDecided.dropTask (h : GrantsDecided m granted) {task : PermissionsTask}
    {rest : List PermissionsTask} (hrunning : m.running = task :: rest) :
    GrantsDecided { m with running := rest } granted := by
  refine ⟨h.outcomes,fun t ht => h.tasks t ?_⟩
  rw [hrunning]
  rcases List.mem_append.mp ht with ht | ht
  · exact List.mem_append_left _ ht
  · exact List.mem_append_right _ (List.mem_cons_of_mem _ ht)

theorem GrantsDecided.decisionTask (h : GrantsDecided m granted) (task : PermissionsTask)
    {outcome : PermissionsInfo → PermissionsOutcome}
    (houtcome : ∀ info, outcome info = .granted → task.request ∈ granted) :
    GrantsDecided (m.decisionTask task outcome) granted := by
  unfold PermissionsManager.decisionTask
  cases hread : m.read task.data task.request with
  | none => exact ⟨h.outcomes,h.tasks⟩
  | some info =>
    refine ⟨fun q hq => ?_,h.tasks⟩
    rcases List.mem_cons.mp hq with heq | hq
    · obtain ⟨rfl,hgranted⟩ := Prod.mk.inj heq
      rw [(PermissionsManager.read_eq_some.mp hread).2]
      exact houtcome info hgranted.symm
    · exact h.outcomes q hq

theorem GrantsDecided.runTask (h : GrantsDecided m granted) : GrantsDecided m.runTask granted := by
  unfold PermissionsManager.runTask
  split
  · rename_i task rest _ hrunning
    have hdrop := h.dropTask hrunning
    have hdecided : task.kind = .grant → task.request ∈ granted :=
      h.tasks task (List.mem_append_right _ (hrunning ▸ List.mem_cons_self))
    unfold PermissionsManager.taskCallback
    split_ifs
    · cases hkind : task.kind with
      | request =>
        dsimp only
        unfold PermissionsManager.permissionRequestTask
        split
        · exact hdrop
        · split_ifs
          · exact ⟨hdrop.outcomes,hdrop.tasks⟩
          · exact hdrop
      | grant => exact hdrop.decisionTask task (fun _ _ => hdecided hkind)
      | reject => exact hdrop.decisionTask task (fun _ h => by cases h)
    · exact hdrop
  · exact h

/-- Every step keeps the grants decided, with the request that the step decides. -/
theorem GrantsDecided.step (h : GrantsDecided m granted) (op : PermissionsOp) :
    GrantsDecided (m.step op) ((if m.fault then [] else grantedBy m op) ++ granted) := by
  have hmono := h.mono (if m.fault then [] else grantedBy m op)
  unfold PermissionsManager.step
  split_ifs with hfault
  · exact h
  · rw [if_neg hfault] at hmono
    cases op with
    | setPermissionsCallback hasCb => exact ⟨hmono.outcomes,hmono.tasks⟩
    | requestPermissions inst addr =>
      dsimp only
      unfold PermissionsManager.requestPermissions
      split_ifs
      · exact hmono
      · exact ⟨hmono.outcomes,hmono.addTask (fun h => by cases h)⟩
    | grantPermissions addr =>
      dsimp only
      unfold PermissionsManager.grantPermissions
      split_ifs with hgiven
      · cases hinfo : m.perms[addr]? with
        | none => exact hmono
        | some info =>
          have hdecides : grantedBy m (.grantPermissions addr) = [info.request] := by
            rw [grantedBy,if_pos hgiven,hinfo]
            rfl
          rw [hdecides] at hmono ⊢
          exact ⟨hmono.outcomes,hmono.addTask (fun _ => by simp)⟩
      · exact hmono
    | rejectPermissions addr reason =>
      dsimp only
      unfold PermissionsManager.rejectPermissions
      split_ifs
      · cases m.perms[addr]? with
        | none => exact hmono
        | some info => exact ⟨hmono.outcomes,hmono.addTask (fun h => by cases h)⟩
      · exact hmono
    | runAllTasks mode =>
      dsimp only
      unfold PermissionsManager.runAllTasks
      split_ifs
      · refine ⟨hmono.outcomes,fun t ht => hmono.tasks t ?_⟩
        exact List.mem_append_left _ (by simpa using ht)
      · exact hmono
    | runTask => exact hmono.runTask
    | finishTask =>
      dsimp only
      unfold PermissionsManager.finishTask
      split
      · exact hmono
      · split <;> exact ⟨hmono.outcomes,hmono.tasks⟩
    | detach inst => exact ⟨hmono.outcomes,hmono.tasks⟩

variable {feature : String} {s : Enforcement}

theorem inv_init : Inv feature {} where
  manager := PermissionsManager.inv_init
  decided := ⟨fun _ h => (nomatch h),fun _ h => (nomatch h)⟩
  bodies := fun _ h => (nomatch h)

theorem Inv.step {stubs : List CallableStub} (hstubs : RequestsDeclared stubs)
    (hs : s.Inv feature) {op : EnforcementOp} (hop : s.Admissible stubs op) :
    (s.step feature op).Inv feature := by
  cases op with
  | call stub inst addr =>
    change (s.call feature stub inst addr).Inv feature
    unfold call
    by_cases hskip : s.manager.fault ∨ inst ∈ s.manager.detached ∨ s.manager.hasCb = false ∨
        s.manager.perms.contains addr = true
    · rwa [if_pos hskip]
    · rw [if_neg hskip]
      cases hrequests : stub.requests with
      | none =>
        refine ⟨hs.manager,hs.decided,fun stub' hstub' hdeclared => ?_⟩
        rcases List.mem_cons.mp hstub' with rfl | hstub'
        · obtain ⟨bits,hbits,-⟩ := hstubs _ hop hdeclared
          rw [hrequests] at hbits
          cases hbits
        · exact hs.bodies stub' hstub' hdeclared
      | some bits =>
        have horderly : s.manager.Orderly (.requestPermissions inst addr) := trivial
        refine ⟨hs.manager.step horderly,?_,?_⟩
        · have hstep := hs.decided.step (.requestPermissions inst addr)
          have hnone : (if s.manager.fault then [] else
              grantedBy s.manager (.requestPermissions inst addr)) = [] := by
            split_ifs <;> rfl
          rwa [hnone] at hstep
        · intro stub' hstub'
          by_cases hblack : isBlackListed feature stub.identifier = true
          · rw [if_pos hblack] at hstub'
            rcases List.mem_cons.mp hstub' with rfl | hstub'
            · exact fun _ => hblack
            · exact hs.bodies stub' hstub'
          · rw [if_neg hblack] at hstub'
            exact hs.bodies stub' hstub'
  | manager op => exact ⟨hs.manager.step hop,hs.decided.step op,hs.bodies⟩

theorem Inv.grantedFirst (hs : s.Inv feature) : s.GrantedFirst feature :=
  ⟨hs.manager.noFault,hs.bodies,fun q _ _ hq => hs.decided.outcomes q hq⟩

end Preservation

/-- Permissions are enforced exactly when functions declare permissions that the generator knows,
and neither a method of an interface declares any nor the callee of an alias. -/
theorem permissions_enforced_iff (feature : String) (depth : ℕ) (members : List ModuleMember)
    (stubs : List CallableStub)
    (hnames : ((moduleFunctions members).map (·.identifier)).Nodup)
    (hgen : genModule depth members = some stubs) :
    (RequestsDeclared stubs ∧ ∀ ops : List EnforcementOp,
      Transition.Guarded (step feature) (Admissible stubs) {} ops →
        Transition.Always (step feature) (GrantedFirst feature) {} ops) ↔
      Requestable members := by
  rw [← requestsDeclared_iff hnames hgen]
  refine ⟨And.left,fun hstubs => ⟨hstubs,fun ops hops => ?_⟩⟩
  exact (hops.always (I := Inv feature) (fun _ _ hs hop => hs.step hstubs hop) inv_init).mono
    (fun _ hs => hs.grantedFirst)

def fetchModule (others : List ModuleMember) : List ModuleMember :=
  .function ⟨"fetch",some "hapjs.permission.INTERNET, hapjs.permission.LOCATION"⟩ ::
    .function ⟨"version",none⟩ :: others

theorem permissions_enforced_of_version :
    ∃ stubs, genModule 2 (fetchModule [.use ⟨"about",none⟩ "version"]) = some stubs ∧
    RequestsDeclared stubs ∧ ∀ ops : List EnforcementOp,
      Transition.Guarded (step "system.fetch") (Admissible stubs) {} ops →
        Transition.Always (step "system.fetch") (GrantedFirst "system.fetch") {} ops := by
  refine ⟨_,rfl,(permissions_enforced_iff "system.fetch" 2
    (fetchModule [.use ⟨"about",none⟩ "version"]) _ (by decide) rfl).mpr ⟨?_,?_,?_⟩⟩
  · intro f hf
    simp only [fetchModule,List.mem_cons,ModuleMember.function.injEq,reduceCtorEq,List.not_mem_nil,or_false] at hf
    rcases hf with rfl | rfl <;> decide
  · intro name extendsList methods hin
    simp [fetchModule] at hin
  · intro node callee hin f hf hcallee
    simp only [fetchModule,List.mem_cons,ModuleMember.use.injEq,reduceCtorEq,
      List.not_mem_nil,or_false,false_or] at hin
    simp only [fetchModule,List.mem_cons,ModuleMember.function.injEq,reduceCtorEq,List.not_mem_nil,or_false] at hf
    obtain ⟨-,rfl⟩ := hin
    rcases hf with rfl | rfl
    · exact absurd hcallee (by decide)
    · rfl

/-- An alias of the function calls its body at once. -/
theorem alias_not_enforced : ∃ stubs, genModule 2 (fetchModule [.use ⟨"load",none⟩ "fetch"]) = some stubs ∧
    ¬(RequestsDeclared stubs ∧ ∀ ops : List EnforcementOp,
      Transition.Guarded (step "system.fetch") (Admissible stubs) {} ops →
        Transition.Always (step "system.fetch") (GrantedFirst "system.fetch") {} ops) := by
  refine ⟨_,rfl,fun h => ?_⟩
  obtain ⟨bits,hbits,-⟩ := h.1 (genMemberMethod "load" none
    (.function ⟨"fetch",some "hapjs.permission.INTERNET, hapjs.permission.LOCATION"⟩))
    (List.mem_cons_of_mem _ (List.mem_cons_of_mem _ List.mem_cons_self)) (by decide)
  cases hbits

end Enforcement
end FeatureRuntime
