import ProjectAudit.Audit.Evaluation

/-!
# What the work of a rule does not look at

A context holds two kinds of things.  With the manifest, the toolchain and the host a rule does its
work; the metadata and the settings are what it knows when it begins.  Once it is decided which
packages to clean, cleaning and building them is work, and so are the notes that are written on the
way: a context that knows other things would lead to the same runs.

* `Context.withKnowledge`: the same context with other metadata and other settings.
* `Rules.cleanPackages_withKnowledge`, `Rules.build_withKnowledge`: the work of the rule about
  builds.
* `Rule.evaluate_custom_withKnowledge`: rules of the user's own know nothing.
-/

namespace ProjectAudit

/-- The same context with other metadata and other settings. -/
def Context.withKnowledge (c : Context) (metadataResult : MetadataResult)
    (settings : RuleSettings) : Context :=
  { c with metadataResult, settings }

variable (c : Context) (result : MetadataResult) (settings : RuleSettings)

namespace Rules

theorem cleanPackages_withKnowledge (names : List Text) :
    cleanPackages (c.withKnowledge result settings) names = cleanPackages c names := by
  induction names with
  | nil => rfl
  | cons name names ih => rw [cleanPackages, ih]; rfl

theorem noteDiagnostics_withKnowledge (ds : List Cargo.Diagnostic) :
    noteDiagnostics (c.withKnowledge result settings) ds = noteDiagnostics c ds := by
  induction ds with
  | nil => rfl
  | cons d ds ih => rw [noteDiagnostics, ih]; rfl

theorem build_withKnowledge : build (c.withKnowledge result settings) = build c := by
  have hjudge (output : Cargo.Output) :
      judgeBuild (c.withKnowledge result settings) output = judgeBuild c output := by
    simp only [judgeBuild, noteDiagnostics_withKnowledge]
    rfl
  simp only [build, hjudge]
  rfl

end Rules

theorem Rule.writeNotes_withKnowledge (notes : List Text) :
    writeNotes (c.withKnowledge result settings) notes = writeNotes c notes := by
  induction notes with
  | nil => rfl
  | cons note notes ih => rw [writeNotes, ih]; rfl

theorem Rule.evaluate_custom_withKnowledge (rule : CustomRule) :
    (Rule.custom rule).evaluate (c.withKnowledge result settings) =
      (Rule.custom rule).evaluate c := by
  rw [evaluate, evaluate, writeNotes_withKnowledge]

end ProjectAudit
