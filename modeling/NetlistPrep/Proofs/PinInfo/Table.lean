import Mathlib.Data.List.Perm.Basic
import Mathlib.Data.Prod.Basic
import NetlistPrep.PinInfo.Wide
import NetlistPrep.Proofs.Json
import NetlistPrep.Proofs.PinInfo.ReadBack
import NetlistPrep.Proofs.PinInfo.Walk
import NetlistPrep.Proofs.Text.Wide

/-!
# What a merge depends on

A merge looks at the keys of a table and at the ports under each of them. The order of the keys and
the names of the cells are nothing to it.

* `CellTable.SamePorts` says that two tables agree in what a merge looks at, and
  `mergePinInfo_congr` that tables that agree merge in the same way, also where the merge fails.
* `WideTable.canonical_eq_iff`: two tables have the same canonical text if and only if they agree in
  this way. Strings and tokens can be told from what is written, and the keys are sorted. The halves
  of a pair of surrogates are written like the character of the pair, so the names must have no two
  halves side by side.
* `WideTable.canonical_identifies_merge` puts both together, for names with surrogates and without.
-/

namespace NetlistPrep

open Text

/-! ## Tables that agree -/

namespace CellTable

variable {t u : CellTable} {key : Text}

/-- The keys of a table with the ports under them. -/
def rows (t : CellTable) : List (Text × List Port) := t.entries.map fun e => (e.1, e.2.ports)

/-- Two tables with the same keys and with the same ports under every key. -/
def SamePorts (t u : CellTable) : Prop := Rows.Agree t.rows u.rows

theorem nodup_map_fst_rows (t : CellTable) : (t.rows.map (·.1)).Nodup := by
  rw [rows, List.map_map]
  exact t.keys_nodup

theorem samePorts_iff_perm : t.SamePorts u ↔ t.rows.Perm u.rows :=
  Rows.agree_iff_perm t.nodup_map_fst_rows u.nodup_map_fst_rows

theorem lookup_rows (t : CellTable) (key : Text) :
    t.rows.lookup key = (t.get? key).map (·.ports) := by
  unfold rows get?
  induction t.entries with
  | nil => rfl
  | cons e entries ih =>
    rw [List.map_cons, List.lookup_cons, List.lookup_cons, ih]
    split <;> rfl

theorem SamePorts.map_get? (h : t.SamePorts u) (key : Text) :
    (t.get? key).map (·.ports) = (u.get? key).map (·.ports) := by
  rw [← lookup_rows, ← lookup_rows]
  exact Rows.lookup_eq_of_perm t.nodup_map_fst_rows (samePorts_iff_perm.1 h)

end CellTable

namespace WidePort

theorem token_injective : Function.Injective token := by
  rintro ⟨name, direction⟩ ⟨name', direction'⟩ h
  obtain ⟨rfl, hend⟩ := List.append_inj' h rfl
  obtain ⟨-, hcode⟩ := List.cons.inj (WideText.ofText_inj.1 hend)
  exact congrArg (WidePort.mk name) (Direction.code_inj.1 (List.cons.inj hcode).1)

theorem token_ofPort (p : Port) : (ofPort p).token = WideText.ofText (PinInfo.token p) :=
  List.map_append.symm

theorem ofPort_injective : Function.Injective ofPort := by
  rintro ⟨name, direction⟩ ⟨name', direction'⟩ h
  obtain ⟨hname, hdirection⟩ := WidePort.mk.inj h
  exact congrArg₂ Port.mk (WideText.ofText_inj.1 hname) hdirection

end WidePort

namespace WideTable

open WideText

variable {t u : WideTable} {c d : CellTable}

/-- Two tables with the same keys and with the same ports under every key. -/
def SamePorts (t u : WideTable) : Prop := Rows.Agree t.rows u.rows

theorem samePorts_iff_perm : t.SamePorts u ↔ t.rows.Perm u.rows :=
  Rows.agree_iff_perm t.keys_nodup u.keys_nodup

theorem samePorts_ofCells_iff : (ofCells c).SamePorts (ofCells d) ↔ c.SamePorts d := by
  have hrows : ∀ c : CellTable, (ofCells c).rows =
      c.rows.map (Prod.map ofText (List.map .ofPort)) := fun c => by
    simp [CellTable.rows, ofCells]
  have hinjective : (Prod.map ofText (List.map WidePort.ofPort)).Injective :=
    Function.Injective.prodMap (fun _ _ => ofText_inj.1)
      (List.map_injective_iff.2 WidePort.ofPort_injective)
  rw [samePorts_iff_perm, CellTable.samePorts_iff_perm, hrows, hrows,
    List.map_perm_map_iff hinjective]

theorem SamePorts.standIn (h : t.SamePorts u) : t.standIn.SamePorts u.standIn := by
  have hrows : ∀ t : WideTable, t.standIn.rows =
      t.rows.map fun row => (WideText.standIn row.1, row.2.map (·.standIn)) := fun t => by
    simp [CellTable.rows, WideTable.standIn]
  rw [CellTable.samePorts_iff_perm, hrows, hrows]
  exact (samePorts_iff_perm.1 h).map _

/-! ## The canonical text of a table -/

/-- The units of a key and of the tokens of the ports under it. -/
def rowUnits (row : WideText × List WidePort) : List UInt16 × List (List UInt16) :=
  (row.1.flatMap CodePoint.units, row.2.map fun p => p.token.flatMap CodePoint.units)

/-- The units of a row, as they are written. -/
def unitsText (row : List UInt16 × List (List UInt16)) : Text :=
  Json.unitString row.1 ++ ':' :: ('[' :: [','].intercalate (row.2.map Json.unitString) ++ [']'])

theorem rowText_eq (row : WideText × List WidePort) : rowText row = unitsText (rowUnits row) := by
  simp only [rowText, portsText, unitsText, rowUnits, Json.wideString_eq, List.map_map]
  rfl

/-- **Written rows show where they end and what their units were.** -/
theorem isSelfDelimiting_rows :
    IsSelfDelimiting fun rows : List (List UInt16 × List (List UInt16)) =>
      '\x7b' :: [','].intercalate (rows.map unitsText) ++ ['\x7d'] := by
  have hports : IsSelfDelimiting fun tokens : List (List UInt16) =>
      '[' :: [','].intercalate (tokens.map Json.unitString) ++ [']'] :=
    Json.isSelfDelimiting_unitString.row (by decide) fun _ _ _ h =>
      absurd (List.cons.inj h).1 (by decide)
  exact (Json.isSelfDelimiting_unitString.pair hports ':').row (by decide) fun _ _ _ h =>
    absurd (List.cons.inj h).1 (by decide)

theorem canonical_eq (t : WideTable) :
    t.canonical = '\x7b' :: [','].intercalate
      (((t.rows.mergeSort fun a b => le a.1 b.1).map rowUnits).map unitsText) ++ ['\x7d'] := by
  rw [canonical, List.map_map]
  congr 3
  exact congrArg (List.map · _) (funext rowText_eq)

/-- A key and the tokens of the ports under it. -/
def tokens (row : WideText × List WidePort) : WideText × List WideText :=
  (row.1, row.2.map (·.token))

theorem tokens_injective : Function.Injective tokens :=
  Function.Injective.prodMap Function.injective_id
    (List.map_injective_iff.2 WidePort.token_injective)

/-- A key and tokens from their units. -/
def ofUnits (row : List UInt16 × List (List UInt16)) : WideText × List WideText :=
  (CodePoint.ofUnits row.1, row.2.map CodePoint.ofUnits)

theorem ofUnits_rowUnits (ht : t.unpaired = true) {row : WideText × List WidePort}
    (hrow : row ∈ t.rows) : ofUnits (rowUnits row) = tokens row := by
  obtain ⟨hkey, hports⟩ := Bool.and_eq_true_iff.1 (List.all_eq_true.1 ht row hrow)
  rw [ofUnits, rowUnits, tokens, CodePoint.ofUnits_flatMap_units hkey, List.map_map]
  refine congrArg (Prod.mk row.1) (List.map_congr_left fun p hp => ?_)
  exact CodePoint.ofUnits_flatMap_units
    (unpaired_append_ofText (List.all_eq_true.1 hports p hp) _)

/-- **The canonical text of a table tells its keys and the ports under them,** and nothing else, if
no two halves of a pair stand side by side in its names. -/
theorem canonical_eq_iff (ht : t.unpaired = true) (hu : u.unpaired = true) :
    t.canonical = u.canonical ↔ t.SamePorts u := by
  have hsorted : (t.rows.mergeSort fun a b => le a.1 b.1) =
      (u.rows.mergeSort fun a b => le a.1 b.1) ↔ t.SamePorts u := by
    rw [samePorts_iff_perm]
    exact mergeSort_key_eq_iff (fun _ _ => CodePoint.value_inj) t.keys_nodup
  rw [canonical_eq, canonical_eq, ← hsorted, isSelfDelimiting_rows.injective]
  refine ⟨fun h => ?_, congrArg _⟩
  have htokens : ∀ t : WideTable, t.unpaired = true →
      ((t.rows.mergeSort fun a b => le a.1 b.1).map rowUnits).map ofUnits =
        (t.rows.mergeSort fun a b => le a.1 b.1).map tokens := fun t ht => by
    rw [List.map_map]
    exact List.map_congr_left fun row hrow => ofUnits_rowUnits ht (List.mem_mergeSort.1 hrow)
  refine List.map_injective_iff.2 tokens_injective ?_
  rw [← htokens t ht, h, htokens u hu]

theorem unpaired_ofCells (c : CellTable) : (ofCells c).unpaired = true := by
  simp [unpaired, ofCells, WidePort.ofPort, unpaired_ofText]

theorem le_ofText (s t : Text) : WideText.le (ofText s) (ofText t) = Text.le s t :=
  leBy_map CodePoint.char s t

theorem canonical_ports (ports : List Port) :
    (Json.arr (ports.map fun p => .str (PinInfo.token p))).canonical =
      portsText (ports.map WidePort.ofPort) := by
  have hitems : Json.canonicalItems (ports.map fun p => .str (PinInfo.token p)) =
      (ports.map WidePort.ofPort).map fun p => Json.wideString p.token := by
    induction ports with
    | nil => rfl
    | cons p ports ih =>
      rw [List.map_cons, Json.canonicalItems, ih, List.map_cons, List.map_cons,
        WidePort.token_ofPort]
      rfl
  rw [Json.canonical, hitems]
  rfl

/-- What is fingerprinted of cells is their canonical text. -/
theorem canonical_cellsJson (c : CellTable) :
    (Pass.cellsJson c).canonical = (ofCells c).canonical := by
  let row (e : Text × Cell) := (ofText e.1, e.2.ports.map WidePort.ofPort)
  let written (e : Text × Cell) := (e.1, portsText (e.2.ports.map WidePort.ofPort))
  have hmembers : Json.canonicalMembers (c.entries.map fun e =>
      (e.1, .arr (e.2.ports.map fun p => .str (PinInfo.token p)))) = c.entries.map written := by
    rw [Json.canonicalMembers_eq_map, List.map_map]
    exact List.map_congr_left fun e _ => congrArg (Prod.mk e.1) (canonical_ports e.2.ports)
  have hwritten : (c.entries.map written).mergeSort (fun a b => Text.le a.1 b.1) =
      (c.entries.mergeSort fun a b => Text.le a.1 b.1).map written :=
    (List.map_mergeSort (f := written) fun _ _ _ _ => rfl).symm
  have hrows : (c.entries.map row).mergeSort (fun a b => WideText.le a.1 b.1) =
      (c.entries.mergeSort fun a b => Text.le a.1 b.1).map row :=
    (List.map_mergeSort (f := row) fun a _ b _ => (le_ofText a.1 b.1).symm).symm
  have hcanonical : (ofCells c).canonical = '\x7b' :: [','].intercalate
      (((c.entries.mergeSort fun a b => Text.le a.1 b.1).map row).map rowText) ++ ['\x7d'] := by
    rw [← hrows]
    rfl
  rw [hcanonical, Pass.cellsJson, Json.canonical, hmembers, hwritten, List.map_map, List.map_map]
  rfl

end WideTable

namespace PinInfo

open CellTable

variable {t u : CellTable}

/-! ## Merging with tables that agree -/

/-- The pin-info line of a declaration is written from the ports under the declared name. -/
theorem info?_eq (t : CellTable) (text : Text) :
    info? t text = (((declared? text).bind fun name => (t.get? name).map (·.ports)).filter
      fun ports => ports ≠ []).map fun ports => line ⟨[], ports⟩ := by
  unfold info?
  cases declared? text with
  | none => rfl
  | some name =>
    cases hc : t.get? name with
    | none => simp [hc]
    | some c =>
      rw [Option.bind_some, Option.bind_some, hc, Option.map_some, Option.filter_some,
        Option.filter_some]
      split <;> rfl

theorem info?_congr (h : t.SamePorts u) (text : Text) : info? t text = info? u text := by
  simp only [info?_eq, h.map_get?]

theorem unknown?_congr (h : t.SamePorts u) (text : Text) : unknown? t text = unknown? u text := by
  unfold unknown?
  refine congrArg (Option.filter · (declared? text)) (funext fun name => ?_)
  rw [← Option.isNone_map (f := (·.ports)), h.map_get?, Option.isNone_map]

end PinInfo

namespace Netlist

open PinInfo

variable {t u : CellTable}

theorem mergeFrom_append_congr (h : t.SamePorts u) (done rest : List Line) (s : Stats) :
    mergeFrom t done.length s ⟨done ++ rest⟩ = mergeFrom u done.length s ⟨done ++ rest⟩ := by
  induction rest using merge_induction (t := t) generalizing done s with
  | nil => rw [mergeFrom_append_nil, mergeFrom_append_nil]
  | none l rest hi ih =>
    rw [mergeFrom_append_of_none hi, mergeFrom_append_of_none (info?_congr h _ ▸ hi),
      unknown?_congr h, ih]
  | some l rest text hi ih =>
    have hi' : info? u l.text = some text := info?_congr h _ ▸ hi
    by_cases hn : '\n' ∈ text
    · rw [mergeFrom_append_of_newline hi hn, mergeFrom_append_of_newline hi' hn]
    · let info : Line := ⟨text, hn⟩
      have hinfo : info? t l.text = some info.text := hi
      have hinfo' : info? u l.text = some info.text := hi'
      rw [mergeFrom_append_of_some hinfo, mergeFrom_append_of_some hinfo', ih]

/-- **Tables that agree merge in the same way:** they leave the same lines and count the same, or
fail with the same fault. -/
theorem mergePinInfo_congr (h : t.SamePorts u) (n : Netlist) :
    n.mergePinInfo t = n.mergePinInfo u :=
  mergeFrom_append_congr h [] n.lines {}

end Netlist

namespace WideTable

/-- **The fingerprint of cells stands for what a merge depends on.** It is taken of a text that two
tables share if and only if they have the same keys and the same ports, with the same directions,
under every key; and tables that share it merge in the same way, into any lines. So it is for names
without surrogates, and for all names in which no two halves of a pair stand side by side. -/
theorem canonical_identifies_merge :
    (∀ t u : WideTable, t.unpaired = true → u.unpaired = true →
      (t.canonical = u.canonical ↔ t.SamePorts u) ∧
      (t.canonical = u.canonical →
        ∀ n : Netlist, n.mergePinInfo t.standIn = n.mergePinInfo u.standIn)) ∧
    ∀ c d : CellTable,
      (∀ n : Netlist, (Pass.pinInfo c).inputs n =
        [(Provenance.netlistKey, Fingerprint.ofText n.toText),
          ("modules".toList, Fingerprint.ofText (ofCells c).canonical)]) ∧
      ((ofCells c).canonical = (ofCells d).canonical ↔ c.SamePorts d) ∧
      ((ofCells c).canonical = (ofCells d).canonical →
        ∀ n : Netlist, n.mergePinInfo c = n.mergePinInfo d) := by
  refine ⟨fun t u ht hu => ?_, fun c d => ?_⟩
  · have hiff := canonical_eq_iff ht hu
    exact ⟨hiff, fun h => Netlist.mergePinInfo_congr (hiff.1 h).standIn⟩
  · have hiff : (ofCells c).canonical = (ofCells d).canonical ↔ c.SamePorts d := by
      rw [canonical_eq_iff (unpaired_ofCells c) (unpaired_ofCells d), samePorts_ofCells_iff]
    refine ⟨fun n => ?_, hiff, fun h => Netlist.mergePinInfo_congr (hiff.1 h)⟩
    rw [← canonical_cellsJson]
    rfl

/-- The same keys and ports in another order, with halves of pairs that stand alone in the names,
and with a quote, a colon and a character outside the first plane. -/
theorem canonical_identifies_merge_lone_halves :
    let high : CodePoint := .surrogate 0x3D
    let low : CodePoint := .surrogate 0x600
    let x : List WidePort := [⟨[.char '\"', .char ':', low, high], .input⟩]
    let y : List WidePort := [⟨[.char '𝄞'], .output⟩]
    let t : WideTable := ⟨[([high, .char 'X'], x), ([low], y)], by decide⟩
    let u : WideTable := ⟨[([low], y), ([high, .char 'X'], x)], by decide⟩
    t.canonical = ("\x7b\"\\ud83dX\":[\"\\\":\\ude00\\ud83d:I\"],".toList ++
      "\"\\ude00\":[\"\\ud834\\udd1e:O\"]\x7d".toList) ∧
      u.canonical = t.canonical ∧
      ∀ n : Netlist, n.mergePinInfo u.standIn = n.mergePinInfo t.standIn := by
  intro high low x y t u
  obtain ⟨hiff, hmerge⟩ := canonical_identifies_merge.1 u t (by decide) (by decide)
  have hsame := hiff.2 (samePorts_iff_perm.2 (by decide))
  refine ⟨?_, hsame, hmerge hsame⟩
  rw [canonical, List.mergeSort_of_pairwise (by decide)]
  decide +kernel

/-- **A character and the halves of its pair are written alike.** So cells under U+1F600 share the
canonical text of cells under U+D83D and U+DE00, and yet a declaration of the character gets its
pin-info line from the one table only. -/
theorem canonical_eq_of_halves :
    let ports : List WidePort := [⟨[.char 'A'], .input⟩]
    let t : WideTable := ⟨[([.char '😀'], ports)], by decide⟩
    let u : WideTable := ⟨[([.surrogate 0x3D, .surrogate 0x600], ports)], by decide⟩
    let n := Netlist.ofText ".SUBCKT 😀 A\n".toList
    t.canonical = u.canonical ∧ ¬ t.SamePorts u ∧
      (n.mergePinInfo t.standIn).1.texts = [".SUBCKT 😀 A".toList, "*.PININFO A:I".toList] ∧
      (n.mergePinInfo u.standIn).1.texts = [".SUBCKT 😀 A".toList] := by
  intro ports t u n
  refine ⟨by decide +kernel, fun h => ?_, by decide +kernel, by decide +kernel⟩
  exact absurd ((h.keys [.char '😀']).1 (by decide)) (by decide)

end WideTable

end NetlistPrep
