import ProjectAudit.Audit.Evaluation
import ProjectAudit.Proofs.Json.Layout
import ProjectAudit.Proofs.Outcome.Counting

/-!
# The report file is read back

The file that a run writes holds the findings and their counts.  Read as JSON it gives the findings
in their order, and their counts, as long as the descriptions hold no two halves of a surrogate pair
side by side, which come back as one character.

* `Report.readBack_toJson`: what is read of a report.
* `Report.read_toJson`: the findings and the counts in what is read.
-/

namespace ProjectAudit

open Json

theorem Finding.readBack_toJson {f : Finding} (h : f.description.fused = f.description) :
    f.toJson.readBack = f.toJson := by
  simp [toJson, readBack, readBackFields, putField, fused_ofString, Text.ofString_inj, h]

theorem Stats.readBack_toJson (s : Stats) : s.toJson.readBack = s.toJson := by
  simp [toJson, readBack, readBackFields, putField, fused_ofString, Text.ofString_inj]

theorem Finding.fits_toJson (f : Finding) (depth : Nat) : Fits (depth + 1) f.toJson := by
  refine .obj fun field hmem => ?_
  simp only [List.mem_cons, List.not_mem_nil, or_false] at hmem
  rcases hmem with rfl | rfl
  · exact .str _
  · exact .str _

/-- Counts of findings are not too long to be read, unless there are too many findings. -/
theorem Stats.fits_toJson {findings : List Finding} (h : Text.isWritable findings.length = true)
    (depth : Nat) : Fits (depth + 1) (ofFindings findings).toJson := by
  have hcount : ∀ o, Fits depth (.int (count o findings)) := fun o =>
    .int (Text.isWritable_of_le (count_le_length o findings) h)
  refine .obj fun field hmem => ?_
  simp only [List.mem_cons, List.not_mem_nil, or_false] at hmem
  rcases hmem with rfl | rfl | rfl
  · exact hcount .success
  · exact hcount .failure
  · exact hcount .undetermined

namespace Report

variable {r : Report}

theorem fits_toJson (h : Text.isWritable r.findings.length = true) (runId generatedAt : Text) :
    Fits maxDepth (r.toJson runId generatedAt) := by
  refine .obj fun field hmem => ?_
  simp only [List.mem_cons, List.not_mem_nil, or_false] at hmem
  rcases hmem with rfl | rfl | rfl | rfl | rfl
  · exact .str _
  · exact .str _
  · exact .str _
  · refine .arr fun v hv => ?_
    obtain ⟨f, -, rfl⟩ := List.mem_map.1 hv
    exact f.fits_toJson _
  · exact Stats.fits_toJson h _

/-- What is read of a report: the findings and the counts as they were written. -/
theorem readBack_toJson (h : ∀ f ∈ r.findings, f.description.fused = f.description)
    (runId generatedAt : Text) :
    (r.toJson runId generatedAt).readBack =
      .obj [("run_id", .str runId.fused), ("generated_at", .str generatedAt.fused),
        ("manifest_path", .str r.manifest.text.fused),
        ("results", .arr (r.findings.map Finding.toJson)), ("stats", r.stats.toJson)] := by
  have hfindings : readBackItems (r.findings.map Finding.toJson) =
      r.findings.map Finding.toJson := by
    rw [readBackItems_eq_map, List.map_map]
    exact List.map_congr_left fun f hf => Finding.readBack_toJson (h f hf)
  simp [toJson, readBack, readBackFields, putField, fused_ofString, Text.ofString_inj,
    hfindings, Stats.readBack_toJson]

/-- **The report file is read back**: it holds the findings in their order, and their counts. -/
theorem read_toJson (hplain : ∀ f ∈ r.findings, f.description.fused = f.description)
    (hlength : Text.isWritable r.findings.length = true) (runId generatedAt : Text) :
    ∃ v, read (Text.ofString (r.toJson runId generatedAt).indented) = .ok v ∧
      (∃ items, v.field? "results" = some (.arr items) ∧
        items.map Finding.ofJson = r.findings.map .valid) ∧
      ∃ counts, v.field? "stats" = some counts ∧ Stats.ofJson counts = .valid r.stats := by
  refine ⟨_, read_indented (fits_toJson hlength runId generatedAt), ?_⟩
  rw [readBack_toJson hplain]
  refine ⟨⟨r.findings.map Finding.toJson, rfl, ?_⟩, r.stats.toJson, rfl, Stats.ofJson_toJson _⟩
  rw [List.map_map]
  exact List.map_congr_left fun f _ => f.ofJson_toJson

end Report

end ProjectAudit
