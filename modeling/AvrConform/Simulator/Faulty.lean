import AvrConform.Machine.Command
import AvrConform.Simulator.Basic
set_option autoImplicit false

/-! The machine with faults put in: staged words are replaced, steps are refused, and the state is
disturbed after steps that went through. A fault is chosen by how many words were staged or how many
steps were asked for before, steps that failed included. -/

namespace AvrConform

structure FaultPlan where
  substitute : Nat → Word → Word := fun _ w => w
  /-- The text with which a step fails without touching the machine. -/
  refuse : Nat → Option String := fun _ => none
  disturb : Nat → Machine → Logged Machine := fun _ m => pure m

structure Faulty where
  machine : Machine
  staged : Nat := 0
  stepped : Nat := 0

inductive Fault where
  | refused : String → Fault
  | invalid : InvalidInstruction → Fault
  deriving DecidableEq

def Fault.message : Fault → String
  | .refused message => message
  | .invalid e => String.ofList e.wire

namespace FaultPlan

def lift (st : Faulty) (x : Logged Machine) : Logged Faulty :=
  ⟨{ st with machine := x.value }, x.entries⟩

def step (p : FaultPlan) (st : Faulty) : Logged (Except Fault Unit × Faulty) :=
  let next := { st with stepped := st.stepped + 1 }
  match p.refuse st.stepped with
  | some message => pure (.error (.refused message), next)
  | none => do
    let (out, m) ← Simulator.machine.step st.machine
    match out with
    | .error e => pure (.error (.invalid e), { next with machine := m })
    | .ok () => do
      let m ← p.disturb st.stepped m
      pure (.ok (), { next with machine := m })

def simulator (p : FaultPlan) : Simulator Faulty Fault where
  setRegister r v st := lift st (Simulator.machine.setRegister r v st.machine)
  setStatus s st := lift st (Simulator.machine.setStatus s st.machine)
  setCounter pc st := lift st (Simulator.machine.setCounter pc st.machine)
  stage w st :=
    lift { st with staged := st.staged + 1 }
      (Simulator.machine.stage (p.substitute st.staged w) st.machine)
  step := p.step
  register st r := st.machine.reg r
  status st := st.machine.sreg
  counter st := st.machine.pc
  describe := Fault.message

end FaultPlan

def ruleApplies (nth : Option Nat) (n : Nat) : Bool :=
  match nth with
  | none => true
  | some k => k = n

structure Substitution where
  nth : Option Nat := none
  rd : Option Reg := none
  keep : Word := 0xffff#16
  set : Word := 0#16
  flip : Word := 0#16

def Substitution.applies (r : Substitution) (n : Nat) (w : Word) : Bool :=
  ruleApplies r.nth n &&
    match r.rd with
    | none => true
    | some rd => Instruction.rdField w = rd

structure Refusal where
  nth : Option Nat := none
  message : String

structure Disturbance where
  nth : Option Nat := none
  command : Command

/-- Lists of rules as a plan. Every substitution that is meant for the staged word is used, in
order; of the refusals the first one counts; the disturbances are carried out in order. -/
def FaultPlan.ofRules (substitutions : List Substitution) (refusals : List Refusal)
    (disturbances : List Disturbance) : FaultPlan where
  substitute n w :=
    (substitutions.filter (fun r => r.applies n w)).foldl
      (fun out r => ((out &&& r.keep) ||| r.set) ^^^ r.flip) w
  refuse n := (refusals.find? (fun r => ruleApplies r.nth n)).map (fun r => r.message)
  disturb n m :=
    (disturbances.filter (fun d => ruleApplies d.nth n)).foldlM
      (fun m d => ⟨d.command.apply m, (d.command.events m).map .machine⟩) m

end AvrConform
