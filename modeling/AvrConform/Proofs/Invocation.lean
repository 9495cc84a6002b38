import AvrConform.CommandLine
import AvrConform.Proofs.Conformance
import AvrConform.Proofs.Coverage
import AvrConform.Proofs.Naming
set_option autoImplicit false

namespace AvrConform

theorem Report.wire_of_passed (n : Nat) :
    (⟨n, []⟩ : Report).wire = decimal n ++ " passed, 0 failed (0 decode failures)\n".toList := by
  have hzero : decimal 0 = ['0'] := rfl
  simp [wire, decodeFailures, hzero]

namespace Options

theorem selected_eq (o : Options) :
    o.selected = if o.opcodes = [] then Opcode.all else o.opcodes := by
  simp only [selected, List.isEmpty_iff]

def chosen (o : Options) : List Case := o.keep (o.selected.eraseDups.flatMap Arch.avr.grid)

theorem run_eq (o : Options) :
    o.run =
      if o.list then { status := 0, output := o.chosen.flatMap (fun c => c.name ++ ['\n']) }
      else { status := 0, output := (⟨o.chosen.length, []⟩ : Report).wire } := by
  rw [run, Arch.matrix_avr]
  simp only [Simulator.report_machine_avr]
  rfl

theorem status_run (o : Options) : o.run.status = 0 := by
  rw [run_eq]
  split
  · rfl
  · rfl

/-- No command line ends as a failed run does, with status 1. -/
theorem status_runArgs (args : List (List Char)) :
    (runArgs args).status =
      match parse args with
      | .ok _ => 0
      | .error _ => 2 := by
  rw [runArgs]
  cases parse args with
  | error e => rfl
  | ok o => exact status_run o

theorem run_outcome (o : Options) :
    ∃ cs, Arch.avr.matrix (if o.opcodes = [] then Opcode.all else o.opcodes) = .ok cs ∧
      let names := (cs.map Case.name).filter (fun name => ∀ pattern ∈ o.filter, pattern <:+: name)
      ({ o with list := true } : Options).run =
        { status := 0, output := names.flatMap (fun name => name ++ ['\n']) } ∧
      ({ o with list := false } : Options).run =
        { status := 0
          output := decimal names.length ++ " passed, 0 failed (0 decode failures)\n".toList } := by
  refine ⟨_, Arch.matrix_avr _, ?_⟩
  intro names
  have hnames : ∀ list, names = ({ o with list := list } : Options).chosen.map Case.name := by
    intro list
    rw [chosen, keep_eq_filter, selected_eq]
    exact List.filter_map
  constructor
  · rw [run_eq, hnames true, List.flatMap_map]
    rfl
  · rw [run_eq, hnames false, List.length_map, ← Report.wire_of_passed]
    rfl

/-- One opcode given twice, and a filter that leaves one register. -/
theorem run_outcome_filtered :
    let o : Options := { opcodes := [.neg, .neg], filter := some "NEG_r05".toList }
    ({ o with list := true } : Options).run =
        { status := 0
          output := ("NEG_r05_v00\nNEG_r05_vff\nNEG_r05_vaa\n" ++
            "NEG_r05_vf0\nNEG_r05_v01\nNEG_r05_v80\n").toList } ∧
      o.run = { status := 0, output := "6 passed, 0 failed (0 decode failures)\n".toList } := by
  intro o
  obtain ⟨cs, hcs, hlisted, hrun⟩ := run_outcome o
  rw [Arch.matrix_avr] at hcs
  obtain rfl := Except.ok.inj hcs
  constructor
  · refine hlisted.trans (congrArg (Outcome.mk 0 · []) ?_)
    decide +kernel
  · refine hrun.trans (congrArg (Outcome.mk 0 · []) ?_)
    decide +kernel

end Options

end AvrConform
