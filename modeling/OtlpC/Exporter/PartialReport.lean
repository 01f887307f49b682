import OtlpC.Exporter.Run
import OtlpC.Proto.PartialSuccess

/-!
# Reports of malformed bodies

What a malformed response body does to the exporter. The decoder tells the clean end of a message from a bad key by
the position of its reader, and a bad key at the very end leaves the reader there.
-/

namespace OtlpC.Exporter

open Proto Proto3

/-- Nothing is counted and no event is raised for the body, whatever the state. -/
def ReportsNothing (body : Bytes) : Prop :=
  ∀ (ι : Type) (cap : ℕ) (w : World ι cap) (s : Signal) (counted : Bool) (count : ℕ),
    otlpExporterReportPartialSuccess w s counted count body = w

theorem reportsNothing_of_none {body : Bytes} (h : otlpExporterOtelDecodePartialSuccess body = none) :
    ReportsNothing body := by
  intro ι cap w s counted count
  rw [otlpExporterReportPartialSuccess, h]

def cutKeyBody : Bytes := [0x0a, 0x02, 0x08, 0x05, 0x80]

theorem malformed_cutKeyBody : Malformed cutKeyBody := by
  rintro ⟨fs, subs, hbody, -⟩
  obtain ⟨key, t, r, rest, gs, hkey, ht, hskip, -, hrest⟩ := isMessage_read hbody (List.cons_ne_nil _ _)
  have hfirst : otlpPbReadKey cutKeyBody = ([0x02, 0x08, 0x05, 0x80], some (1, 2)) := by decide
  rw [hfirst] at hkey
  cases hkey
  obtain rfl := ht _ rfl
  have hsecond : otlpPbSkip [0x02, 0x08, 0x05, 0x80] 2 = some [0x80] := by decide
  rw [hsecond] at hskip
  cases hskip
  obtain ⟨key, t, r, rest, gs, hkey, -, -, hr, -⟩ := isMessage_read hrest (List.cons_ne_nil _ _)
  have hlast : otlpPbReadKey [0x80] = ([], none) := by decide
  rw [hlast] at hkey
  cases hkey
  exact hr rfl

theorem decode_cutKeyBody :
    otlpExporterOtelDecodePartialSuccess cutKeyBody = some { rejected := 5, errorMessage := none } := by
  decide

/-- **A malformed body** is rejected and leaves no trace, unless all that is wrong with it is a bad key at the end of
the body or of a `partial_success`. -/
theorem malformed_rejected_iff {body : Bytes} (hmalformed : Malformed body) :
    (otlpExporterOtelDecodePartialSuccess body = none ∧ ReportsNothing body) ↔ ¬BadKeyAtEnd body := by
  rw [← malformed_isSome_iff hmalformed, Bool.not_eq_true, Option.isSome_eq_false_iff, Option.isNone_iff_eq_none]
  exact ⟨fun h => h.1, fun h => ⟨h, reportsNothing_of_none h⟩⟩

theorem badKeyAtEnd_cutKeyBody : BadKeyAtEnd cutKeyBody := by
  by_contra h
  have hnone := ((malformed_rejected_iff malformed_cutKeyBody).2 h).1
  rw [decode_cutKeyBody] at hnone
  cases hnone

theorem malformed_accepted : Malformed cutKeyBody ∧
    otlpExporterOtelDecodePartialSuccess cutKeyBody = some { rejected := 5, errorMessage := none } ∧
    ¬ReportsNothing cutKeyBody := by
  refine ⟨malformed_cutKeyBody, decode_cutKeyBody, fun h => ?_⟩
  have hcreated : (otlpExporterCreate ℕ (plainOpts 1 1) .fine).isSome := by decide +kernel
  obtain ⟨e, -⟩ := Option.isSome_iff_exists.1 hcreated
  have hevents := congrArg World.history (h ℕ _ (State.init e false false).world .span true 1)
  rw [otlpExporterReportPartialSuccess, decode_cutKeyBody] at hevents
  exact List.cons_ne_nil _ _ hevents

end OtlpC.Exporter
