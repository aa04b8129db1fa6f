import NpuMatmul.Shared.Runs
import NpuMatmul.Tensors.CachedGraph

set_option autoImplicit false

namespace NpuMatmul

inductive MemType where
  | raw
  | memHandle
deriving DecidableEq, Repr

-- The union of a Qnn_Tensor_t, as the member written last. A null pointer is none.
inductive TensorMemory where
  | clientBuf (data : Option Nat) (dataSize : Nat)
  | memHandle (handle : Nat)
deriving DecidableEq, Repr

def TensorMemory.memType : TensorMemory → MemType
  | .clientBuf _ _ => .raw
  | .memHandle _ => .memHandle

structure QnnTensor where
  name : String
  type : TensorType
  tensor : Tensor
  memType : MemType
  memory : TensorMemory
deriving DecidableEq, Repr

namespace QnnTensor

def of (name : String) (type : TensorType) (tensor : Tensor) : QnnTensor :=
  { name := name, type := type, tensor := tensor, memType := .raw, memory := .clientBuf none 0 }

-- The assignments to clientBuf before a graphExecute. They leave memType as it is.
def setClientBuf (descriptor : QnnTensor) (data : Option Nat) : QnnTensor :=
  { descriptor with memory := .clientBuf data (descriptor.tensor.byteCount % 2 ^ 32) }

def setMemHandle (descriptor : QnnTensor) : Option Nat → QnnTensor
  | some handle => { descriptor with memType := .memHandle, memory := .memHandle handle }
  | none => descriptor

end QnnTensor

structure GraphDescriptors where
  tensorA : QnnTensor
  tensorB : QnnTensor
  tensorC : QnnTensor
deriving DecidableEq, Repr

inductive ExecuteCall where
  -- staticWeights is where the vector of the graph that the static branch builds lies.
  | execute (inputA inputB outputC staticWeights : Option Nat)
  | executeWithHandles (memA memB memC : Option Nat)
deriving DecidableEq, Repr

structure DescriptorExecute where
  inputs : List QnnTensor
  output : QnnTensor
deriving DecidableEq, Repr

namespace GraphDescriptors

def created (useStaticWeights : Bool) (M K N : Nat) (staticWeights : Option Nat) :
    GraphDescriptors :=
  { tensorA := .of "A" .appWrite (NpuMatmul.tensorA M K)
    tensorB :=
      if useStaticWeights then
        (QnnTensor.of "B" .static (NpuMatmul.tensorB N K)).setClientBuf staticWeights
      else .of "B" .appWrite (NpuMatmul.tensorB N K)
    tensorC := .of "C" .appRead (NpuMatmul.tensorC M N) }

def fill (graph : GraphDescriptors) (inputA inputB outputC : Option Nat) : GraphDescriptors :=
  { tensorA := graph.tensorA.setClientBuf inputA
    tensorB := graph.tensorB.setClientBuf inputB
    tensorC := graph.tensorC.setClientBuf outputC }

def inputs (graph : GraphDescriptors) (useStaticWeights : Bool) : List QnnTensor :=
  if useStaticWeights then [graph.tensorA] else [graph.tensorA, graph.tensorB]

def temporary (graph : GraphDescriptors) (inputA outputC staticWeights : Option Nat) :
    GraphDescriptors :=
  let fresh : GraphDescriptors :=
    { tensorA := .of "A" .appWrite graph.tensorA.tensor
      tensorB := (QnnTensor.of "B" .static graph.tensorB.tensor).setClientBuf staticWeights
      tensorC := .of "C" .appRead graph.tensorC.tensor }
  { fresh with
    tensorA := fresh.tensorA.setClientBuf inputA, tensorC := fresh.tensorC.setClientBuf outputC }

def run (useStaticWeights : Bool) (graph : GraphDescriptors) :
    ExecuteCall → GraphDescriptors × GraphDescriptors
  | .execute inputA inputB outputC staticWeights =>
      if useStaticWeights then (graph, graph.temporary inputA outputC staticWeights)
      else
        let graph := graph.fill inputA inputB outputC
        (graph, graph)
  | .executeWithHandles memA memB memC =>
      let graph := { graph with tensorA := graph.tensorA.setMemHandle memA }
      let graph :=
        if useStaticWeights then graph
        else { graph with tensorB := graph.tensorB.setMemHandle memB }
      let graph := { graph with tensorC := graph.tensorC.setMemHandle memC }
      (graph, graph)

def step (useStaticWeights : Bool) (graph : GraphDescriptors) (call : ExecuteCall) :
    Option GraphDescriptors :=
  some (graph.run useStaticWeights call).1

def graphExecute (useStaticWeights : Bool) (graph : GraphDescriptors) (call : ExecuteCall) :
    DescriptorExecute :=
  let executed := (graph.run useStaticWeights call).2
  { inputs := executed.inputs useStaticWeights, output := executed.tensorC }

end GraphDescriptors

inductive Supply where
  | buffer (data : Option Nat)
  | handle (handle : Nat)
deriving DecidableEq, Repr

def TensorMemory.supply : TensorMemory → Supply
  | .clientBuf data _ => .buffer data
  | .memHandle handle => .handle handle

-- What a call supplies for the tensors A, B and C. A null handle is none at all.
def ExecuteCall.supplies : ExecuteCall → String → Option Supply
  | .execute inputA inputB outputC _, name =>
      some (.buffer (if name = "A" then inputA else if name = "B" then inputB else outputC))
  | .executeWithHandles memA memB memC, name =>
      (if name = "A" then memA else if name = "B" then memB else memC).map .handle

-- memType selects the member written last, which holds what this very call supplies.
structure QnnTensor.Current (descriptor : QnnTensor) (call : ExecuteCall) : Prop where
  tagged : descriptor.memType = descriptor.memory.memType
  supplied : call.supplies descriptor.name = some descriptor.memory.supply

def DescriptorExecute.Current (execution : DescriptorExecute) (call : ExecuteCall) : Prop :=
  ∀ descriptor ∈ execution.inputs ++ [execution.output], descriptor.Current call

namespace ExecuteCall

def WithHandles : ExecuteCall → Prop
  | .execute _ _ _ _ => False
  | .executeWithHandles _ _ _ => True

def Complete (useStaticWeights : Bool) : ExecuteCall → Prop
  | .execute _ _ _ _ => True
  | .executeWithHandles memA memB memC =>
      memA.isSome ∧ (useStaticWeights ∨ memB.isSome) ∧ memC.isSome

def NeverBack (calls : List ExecuteCall) : Prop :=
  calls.Pairwise fun earlier later => earlier.WithHandles → later.WithHandles

end ExecuteCall

namespace GraphDescriptors

def Named (graph : GraphDescriptors) : Prop :=
  graph.tensorA.name = "A" ∧ graph.tensorB.name = "B" ∧ graph.tensorC.name = "C"

def Tagged (memType : MemType) (graph : GraphDescriptors) : Prop :=
  graph.tensorA.memType = memType ∧ graph.tensorB.memType = memType ∧
    graph.tensorC.memType = memType

end GraphDescriptors

section Tensors

variable {descriptor : QnnTensor}

theorem setClientBuf_current (descriptor : QnnTensor) (data : Option Nat) (call : ExecuteCall)
    (supplied : call.supplies descriptor.name = some (.buffer data)) :
    (descriptor.setClientBuf data).Current call ↔ descriptor.memType = .raw := by
  constructor
  · intro current
    exact current.tagged
  · intro raw
    exact { tagged := raw, supplied := supplied }

theorem setMemHandle_current (descriptor : QnnTensor) (handle : Option Nat) (call : ExecuteCall)
    (supplied : call.supplies descriptor.name = handle.map .handle) :
    (descriptor.setMemHandle handle).Current call ↔ handle.isSome := by
  cases handle with
  | some handle =>
      simp only [Option.isSome_some, iff_true]
      exact { tagged := rfl, supplied := supplied }
  | none =>
      simp only [Option.isSome_none, Bool.false_eq_true, iff_false]
      intro current
      have none_supplied := current.supplied
      simp [QnnTensor.setMemHandle, supplied] at none_supplied

@[simp] theorem setClientBuf_name (data : Option Nat) :
    (descriptor.setClientBuf data).name = descriptor.name := rfl

@[simp] theorem setClientBuf_memType (data : Option Nat) :
    (descriptor.setClientBuf data).memType = descriptor.memType := rfl

@[simp] theorem setMemHandle_name (handle : Option Nat) :
    (descriptor.setMemHandle handle).name = descriptor.name := by
  cases handle <;> rfl

theorem setMemHandle_memType {handle : Option Nat} (passed : handle.isSome) :
    (descriptor.setMemHandle handle).memType = .memHandle := by
  cases handle with
  | some handle => rfl
  | none => cases passed

end Tensors

namespace GraphDescriptors

variable {useStaticWeights : Bool} {graph next : GraphDescriptors} {call : ExecuteCall}

theorem executeWithHandles_current {memA memB memC : Option Nat} (named : graph.Named) :
    (graph.graphExecute useStaticWeights (.executeWithHandles memA memB memC)).Current
        (.executeWithHandles memA memB memC) ↔
      (ExecuteCall.executeWithHandles memA memB memC).Complete useStaticWeights := by
  obtain ⟨nameA, nameB, nameC⟩ := named
  have a := setMemHandle_current graph.tensorA memA (.executeWithHandles memA memB memC)
    (by simp [ExecuteCall.supplies, nameA])
  have b := setMemHandle_current graph.tensorB memB (.executeWithHandles memA memB memC)
    (by simp [ExecuteCall.supplies, nameB])
  have c := setMemHandle_current graph.tensorC memC (.executeWithHandles memA memB memC)
    (by simp [ExecuteCall.supplies, nameC])
  cases useStaticWeights <;>
    simp [DescriptorExecute.Current, graphExecute, run, inputs, ExecuteCall.Complete, a, b, c]

theorem execute_current {inputA inputB outputC staticWeights : Option Nat} (named : graph.Named) :
    (graph.graphExecute useStaticWeights
        (.execute inputA inputB outputC staticWeights)).Current
        (.execute inputA inputB outputC staticWeights) ↔
      useStaticWeights ∨ graph.Tagged .raw := by
  obtain ⟨nameA, nameB, nameC⟩ := named
  cases useStaticWeights with
  | true =>
      have a := (setClientBuf_current (.of "A" .appWrite graph.tensorA.tensor) inputA
        (.execute inputA inputB outputC staticWeights) rfl).mpr rfl
      have c := (setClientBuf_current (.of "C" .appRead graph.tensorC.tensor) outputC
        (.execute inputA inputB outputC staticWeights) rfl).mpr rfl
      simp [DescriptorExecute.Current, graphExecute, run, inputs, temporary, a, c]
  | false =>
      have a := setClientBuf_current graph.tensorA inputA
        (.execute inputA inputB outputC staticWeights) (by simp [ExecuteCall.supplies, nameA])
      have b := setClientBuf_current graph.tensorB inputB
        (.execute inputA inputB outputC staticWeights) (by simp [ExecuteCall.supplies, nameB])
      have c := setClientBuf_current graph.tensorC outputC
        (.execute inputA inputB outputC staticWeights) (by simp [ExecuteCall.supplies, nameC])
      simp [DescriptorExecute.Current, graphExecute, run, inputs, fill, Tagged, a, b, c]

theorem created_named (useStaticWeights : Bool) (M K N : Nat) (staticWeights : Option Nat) :
    (created useStaticWeights M K N staticWeights).Named := by
  cases useStaticWeights <;> exact ⟨rfl, rfl, rfl⟩

theorem created_raw (M K N : Nat) (staticWeights : Option Nat) :
    (created useStaticWeights M K N staticWeights).Tagged .raw := by
  cases useStaticWeights <;> exact ⟨rfl, rfl, rfl⟩

theorem run_named (named : graph.Named) : (graph.run useStaticWeights call).1.Named := by
  cases call <;> cases useStaticWeights <;> simpa [run, fill, Named] using named

theorem execute_keeps {inputA inputB outputC staticWeights : Option Nat} {memType : MemType}
    (tagged : graph.Tagged memType) :
    (graph.run useStaticWeights (.execute inputA inputB outputC staticWeights)).1.Tagged
      memType := by
  cases useStaticWeights <;> simpa [run, fill, Tagged] using tagged

theorem executeWithHandles_tags {memA memB memC : Option Nat}
    (complete : (ExecuteCall.executeWithHandles memA memB memC).Complete false) :
    (graph.run false (.executeWithHandles memA memB memC)).1.Tagged .memHandle := by
  obtain ⟨passedA, passedB, passedC⟩ := complete
  have passedB : memB.isSome := by simpa using passedB
  exact ⟨setMemHandle_memType passedA, setMemHandle_memType passedB, setMemHandle_memType passedC⟩

variable (useStaticWeights) in
def AlwaysCurrent (graph : GraphDescriptors) (calls : List ExecuteCall) : Prop :=
  Runs.Along (step useStaticWeights)
    (fun graph call => (graph.graphExecute useStaticWeights call).Current call) graph calls

theorem alwaysCurrent_cons {calls : List ExecuteCall} :
    graph.AlwaysCurrent useStaticWeights (call :: calls) ↔
      (graph.graphExecute useStaticWeights call).Current call ∧
        (graph.run useStaticWeights call).1.AlwaysCurrent useStaticWeights calls := by
  simp [AlwaysCurrent, Runs.Along, step]

theorem alwaysCurrent_static (named : graph.Named) (calls : List ExecuteCall) :
    graph.AlwaysCurrent true calls ↔ ∀ call ∈ calls, call.Complete true := by
  induction calls generalizing graph with
  | nil => simp [AlwaysCurrent, Runs.Along]
  | cons call calls ih =>
      rw [alwaysCurrent_cons, ih (run_named named), List.forall_mem_cons]
      cases call with
      | execute => simp [execute_current named, ExecuteCall.Complete]
      | executeWithHandles => rw [executeWithHandles_current named]

theorem alwaysCurrent_handles (named : graph.Named) (handles : graph.Tagged .memHandle)
    (calls : List ExecuteCall) :
    graph.AlwaysCurrent false calls ↔ ∀ call ∈ calls, call.WithHandles ∧ call.Complete false := by
  induction calls generalizing graph with
  | nil => simp [AlwaysCurrent, Runs.Along]
  | cons call calls ih =>
      rw [alwaysCurrent_cons, List.forall_mem_cons]
      cases call with
      | execute inputA inputB outputC staticWeights =>
          have stale : ¬ graph.Tagged .raw := fun raw => by cases raw.1.symm.trans handles.1
          simp [execute_current named, stale, ExecuteCall.WithHandles]
      | executeWithHandles memA memB memC =>
          rw [executeWithHandles_current named]
          constructor
          · rintro ⟨complete, later⟩
            exact ⟨⟨trivial, complete⟩,
              (ih (run_named named) (executeWithHandles_tags complete)).mp later⟩
          · rintro ⟨⟨-, complete⟩, later⟩
            exact ⟨complete, (ih (run_named named) (executeWithHandles_tags complete)).mpr later⟩

theorem alwaysCurrent_buffers (named : graph.Named) (raw : graph.Tagged .raw)
    (calls : List ExecuteCall) :
    graph.AlwaysCurrent false calls ↔
      (∀ call ∈ calls, call.Complete false) ∧ ExecuteCall.NeverBack calls := by
  induction calls generalizing graph with
  | nil => simp [AlwaysCurrent, Runs.Along, ExecuteCall.NeverBack]
  | cons call calls ih =>
      rw [alwaysCurrent_cons, List.forall_mem_cons, ExecuteCall.NeverBack, List.pairwise_cons]
      cases call with
      | execute inputA inputB outputC staticWeights =>
          rw [execute_current named, ih (run_named named) (execute_keeps raw)]
          simp [raw, ExecuteCall.Complete, ExecuteCall.WithHandles, ExecuteCall.NeverBack]
      | executeWithHandles memA memB memC =>
          rw [executeWithHandles_current named]
          constructor
          · rintro ⟨complete, later⟩
            have each := (alwaysCurrent_handles (run_named named)
              (executeWithHandles_tags complete) calls).mp later
            refine ⟨⟨complete, fun call member => (each call member).2⟩, ?_, ?_⟩
            · exact fun call member _ => (each call member).1
            · exact List.pairwise_of_forall_mem_list fun _ _ later member _ => (each later member).1
          · rintro ⟨⟨complete, others⟩, after, -⟩
            refine ⟨complete, (alwaysCurrent_handles (run_named named)
              (executeWithHandles_tags complete) calls).mpr fun call member => ?_⟩
            exact ⟨after call member trivial, others call member⟩

end GraphDescriptors

theorem descriptors_current_iff (useStaticWeights : Bool) (M K N : Nat)
    (staticWeights : Option Nat) (calls : List ExecuteCall) :
    (GraphDescriptors.created useStaticWeights M K N staticWeights).AlwaysCurrent
        useStaticWeights calls ↔
      (∀ call ∈ calls, call.Complete useStaticWeights) ∧
        (useStaticWeights ∨ ExecuteCall.NeverBack calls) := by
  have named := GraphDescriptors.created_named useStaticWeights M K N staticWeights
  cases useStaticWeights with
  | true => simpa using GraphDescriptors.alwaysCurrent_static named calls
  | false =>
      simpa using GraphDescriptors.alwaysCurrent_buffers named
        (GraphDescriptors.created_raw M K N staticWeights) calls

-- The buffers of the second call meet the memType that the first one left.
theorem handles_outlive_call :
    ¬ (GraphDescriptors.created false 32 32 32 none).AlwaysCurrent false
      [.executeWithHandles (some 1) (some 2) (some 3),
        .execute (some 4096) (some 8192) (some 12288) none] := by
  intro always
  have second := (GraphDescriptors.alwaysCurrent_cons.mp
    (GraphDescriptors.alwaysCurrent_cons.mp always).2).1
  have tagged := (second _ List.mem_cons_self).tagged
  revert tagged
  decide

end NpuMatmul
