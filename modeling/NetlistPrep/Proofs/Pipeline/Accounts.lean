import Mathlib.Algebra.Ring.Int.Defs
import NetlistPrep.Proofs.Pass
import NetlistPrep.Proofs.Pipeline.Output

/-!
# The accounts of a whole run

* `Chain`: accounts one after the other, each of work on the netlist that the one before it left.
  `chain_of_runPasses_eq_ok` says that the accounts of passes are such a chain.
* `Chain.size_eq`: along a chain the lines that are put in add up.
* `accountsFor_of_runRequest`: the account of a whole run is right, and it is the sum of those of
  its passes.
* `accounts_balance` puts passes and runs together.
-/

namespace NetlistPrep

open Outcome

theorem Netlist.count_newline_toText (n : Netlist) : n.toText.count '\n' = n.size := by
  obtain ⟨lines⟩ := n
  induction lines with
  | nil => rfl
  | cons l rest ih =>
    have hcons : toText ⟨l :: rest⟩ = (l.text ++ ['\n']) ++ toText ⟨rest⟩ := rfl
    have hl : l.text.count '\n' = 0 := List.count_eq_zero.2 l.noLineFeed
    rw [hcons, List.count_append, List.count_append, hl, ih]
    simp [size, Nat.add_comm]

namespace Provenance

/-- Accounts of work from one netlist to another by way of those in between. -/
inductive Chain : Netlist → List Provenance → Netlist → Prop
  | nil (n : Netlist) : Chain n [] n
  | cons {n m k : Netlist} {p : Provenance} {rest : List Provenance} (h : p.Accounts n m)
      (hrest : Chain m rest k) : Chain n (p :: rest) k

/-- **Along a chain the lines that are put in add up.** -/
theorem Chain.size_eq {n m : Netlist} {ps : List Provenance} (h : Chain n ps m) :
    (m.size : Int) = n.size + (ps.map (·.inserted)).sum := by
  induction h with
  | nil n => simp
  | cons h hrest ih =>
    have hin := h.linesIn
    have hout := h.linesOut
    have hinserted := h.inserted
    rw [List.map_cons, List.sum_cons]
    omega

end Provenance

namespace Pipeline

open Provenance

theorem chain_of_runPasses_eq_ok {n m : Netlist} {ps : List Pass} {stages : List (Text × Report)}
    (h : runPasses n ps = .ok (m, stages)) :
    Chain n (stages.map fun stage => stage.2.provenance) m := by
  induction ps generalizing n stages with
  | nil =>
    obtain ⟨rfl, rfl⟩ := Prod.mk.inj (Except.ok.inj h)
    exact .nil n
  | cons p rest ih =>
    obtain ⟨report, hreport, h⟩ := bind_eq_ok_iff.1 h
    obtain ⟨⟨final, reports⟩, hrest, h⟩ := bind_eq_ok_iff.1 h
    obtain ⟨rfl, rfl⟩ := Prod.mk.inj (Except.ok.inj h)
    exact .cons (Pass.accounts_of_run hreport) (ih hrest)

theorem foldl_add_eq_sum (count : Provenance → Int) (reports : List Report) :
    reports.foldl (fun total r => total + count r.provenance) 0 =
      ((reports.map (·.provenance)).map count).sum := by
  rw [List.map_map, List.sum_eq_foldl, List.foldl_map]
  rfl

/-- The accounts that the reports of a run give, pass by pass. -/
def Result.accounts (r : Result) : List Provenance := r.reports.map (·.provenance)

/-- The account of a run from a netlist is right, and it is the sum of the accounts of its passes,
each of which works on the netlist that the one before it left. -/
structure Result.AccountsFor (r : Result) (n : Netlist) : Prop where
  chain : Chain n r.accounts r.netlist
  whole : r.provenance.Accounts n r.netlist
  text : r.text = r.netlist.toText
  fixedText :
    r.provenance.outputs.lookup "fixed_text".toList = some (Fingerprint.ofText r.text)
  inserted : r.provenance.inserted = (r.accounts.map (·.inserted)).sum
  rewritten : r.provenance.rewritten = (r.accounts.map (·.rewritten)).sum

theorem accountsFor_of_run {s : Settings} {text : Option Text} {cells : Option CellTable}
    {n : Netlist} {result : Result} (h : run s text cells n = .ok result) :
    result.AccountsFor n := by
  obtain ⟨⟨final, stages⟩, hrun, h⟩ := bind_eq_ok_iff.1 h
  obtain rfl := Except.ok.inj h
  have hchain : Chain n ((stages.map (·.2)).map (·.provenance)) final := by
    rw [List.map_map]
    exact chain_of_runPasses_eq_ok hrun
  have hinserted := foldl_add_eq_sum (·.inserted) (stages.map (·.2))
  have hrewritten := foldl_add_eq_sum (·.rewritten) (stages.map (·.2))
  have hsize := hchain.size_eq.trans (congrArg _ hinserted.symm)
  exact ⟨hchain, ⟨rfl, rfl, rfl, rfl, hsize⟩, rfl, rfl, hinserted, hrewritten⟩

/-- **Every run that succeeds accounts for what it did.** -/
theorem accountsFor_of_runRequest {tree : FileTree} {s : Settings} {request : Request}
    {result : Result} (h : runRequest tree s request = .ok result) :
    ∃ n, request.getNetlist = .ok n ∧ result.AccountsFor n := by
  obtain ⟨n, hn, h⟩ := bind_eq_ok_iff.1 h
  obtain ⟨given, -, h⟩ := bind_eq_ok_iff.1 h
  obtain ⟨loaded, -, h⟩ := bind_eq_ok_iff.1 h
  obtain ⟨whole, hwhole, h⟩ := bind_eq_ok_iff.1 h
  obtain rfl := Except.ok.inj h
  obtain ⟨hchain, hwhole, htext, hfixed, hinserted, hrewritten⟩ := accountsFor_of_run hwhole
  exact ⟨n, hn, hchain, hwhole, htext, hfixed, hinserted, hrewritten⟩

/-- **Accounts balance.** Every pass that succeeds leaves as many lines more as it says it put in,
and so do sections that are known by any test. A pass that works line by line moves no line and
counts the places at which the lines differ; recovery finds as many lines changed. The passes of a
run take up one another's netlists, the run takes its counts from theirs, and its text has a line
feed for every line that it counts. -/
theorem accounts_balance :
    (∀ (p : Pass) n report, p.run n = .ok report → report.provenance.Accounts n report.netlist) ∧
      (∀ requirements s s' inserted,
        (Store.ensureSections requirements).runOn s = (.ok inserted, s') →
          s'.length = s.length + inserted.length) ∧
      (∀ (p : Pass) f n report, p.onLine? = some f → p.run n = .ok report →
        report.netlist.texts = n.texts.map f ∧
          report.provenance.rewritten = Pass.differences n.texts report.netlist.texts) ∧
      (∀ n report, Pass.geometry.run n = .ok report →
        report.provenance.rewritten = n.texts.countP fun t => (Recovery.ofLine t).changed) ∧
      ∀ tree s request result, runRequest tree s request = .ok result →
        ∃ n, request.getNetlist = .ok n ∧ result.AccountsFor n ∧
          result.provenance.linesOut - result.provenance.linesIn =
            (result.accounts.map (·.inserted)).sum ∧
          result.text.count '\n' = result.provenance.linesOut := by
  refine ⟨fun _ _ _ => Pass.accounts_of_run, ?_, fun _ _ _ _ => Pass.texts_of_run_onLine, ?_, ?_⟩
  · intro requirements s s' inserted h
    rw [Store.eq_append_of_runOn_ensureSections h, List.length_append, List.length_reverse,
      Nat.add_comm]
  · intro n report h
    obtain ⟨htexts, hrewritten⟩ := Pass.texts_of_run_onLine rfl h
    rw [hrewritten, htexts, Pass.differences_map, Int.natCast_inj]
    refine List.countP_congr fun t _ => ?_
    rw [decide_eq_true_iff, ne_eq, Recovery.text_ofLine_eq_self_iff, Bool.not_eq_false]
  · intro tree s request result h
    obtain ⟨n, hn, hresult⟩ := accountsFor_of_runRequest h
    refine ⟨n, hn, hresult, ?_, ?_⟩
    · have hbalance := hresult.whole.inserted
      have hinserted := hresult.inserted
      omega
    · rw [hresult.text, Netlist.count_newline_toText, hresult.whole.linesOut]

/-- The banners and the sections are seventeen lines, in front of the one that there was; the keys
of one of two lines are put in small letters. -/
theorem accounts_balance_resistor :
    (∃ result, runRequest ⟨[], []⟩ {} (.ofText "R1 a b W=1u L=2u\n\n".toList none) = .ok result ∧
        result.provenance.linesIn = 1 ∧ (result.accounts.map (·.inserted)).sum = 17 ∧
        result.text.count '\n' = 18) ∧
      ∃ report, (Pass.keyCase KeyCase.standard).run (.ofText "R1 a b W=1u\n* W\n".toList) =
          .ok report ∧ report.provenance.rewritten = 1 ∧ report.provenance.linesOut = 2 := by
  obtain ⟨hpass, -, honLine, -, hbalance⟩ := accounts_balance
  constructor
  · have hinfos : InfosAreLines none ((preamble {} (body "R1 a b W=1u L=2u\n\n".toList)
        ++ body "R1 a b W=1u L=2u\n\n".toList).map (fixLine {})) :=
      infosAreLines_of_ports (by simp) _
    have hcells : cellsFor ⟨[], []⟩ {} none = .ok none := rfl
    obtain ⟨result, hrun, htexts, -⟩ := exists_runRequest_ofText hcells hinfos
    obtain ⟨n, hn, hresult, hinserted, hcount⟩ := hbalance _ _ _ _ hrun
    obtain rfl := Except.ok.inj hn
    have hin : result.provenance.linesIn = 1 := hresult.whole.linesIn
    have hout : result.provenance.linesOut = 18 := by
      have hlength : (outputLines {} none (body "R1 a b W=1u L=2u\n\n".toList)).length = 18 := by
        rw [outputLines, mergedFor, List.length_map]
        decide
      rw [hresult.whole.linesOut, ← Netlist.length_texts, htexts]
      exact congrArg _ hlength
    exact ⟨result, hrun, hin, by omega, by omega⟩
  · obtain ⟨report, hrun⟩ : ∃ report, (Pass.keyCase KeyCase.standard).run
        (.ofText "R1 a b W=1u\n* W\n".toList) = .ok report := ⟨_, rfl⟩
    obtain ⟨htexts, hrewritten⟩ := honLine _ _ _ _ rfl hrun
    refine ⟨report, hrun, ?_, ?_⟩
    · rw [hrewritten, htexts]
      decide
    · rw [(hpass _ _ _ hrun).linesOut, Netlist.size_eq_of_texts_eq_map htexts]
      rfl

end Pipeline

end NetlistPrep
