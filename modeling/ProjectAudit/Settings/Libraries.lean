import ProjectAudit.Pattern.Parser
import ProjectAudit.Settings.Basic

/-!
# What is left to libraries

Two things are done by libraries of the host that are not described here as a whole.  One finds out
what a pattern of the settings means, whose notation has more to it than `Pattern.ofText` reads.
The other one puts the issues of settings into words.

What is known of the first is that it can read the pattern of the default settings.
-/

namespace ProjectAudit

/-- The libraries of a host. -/
structure Libraries where
  /-- The names that begin with a match of a pattern, letters of either case being the same. -/
  matcher : Text → Except PatternError (Text → Bool)
  /-- What is said of issues, behind the path of the file that has them. -/
  wording : List Issue → Text
  matcher_initial : ∃ accepts,
    matcher ({} : Settings.ContinuousIntegration).fileNamePattern = .ok accepts

/-- Libraries with the notation of `Pattern.ofText`, which say nothing of issues. -/
def Libraries.plain : Libraries where
  matcher text := (Pattern.ofText true text).map Pattern.accepts
  wording _ := []
  matcher_initial := ⟨_, rfl⟩

end ProjectAudit
