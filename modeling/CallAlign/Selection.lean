import CallAlign.Config
import CallAlign.Glob

/-!
# Files by name

A configuration selects a path by its patterns: some include pattern matches it and no exclude
pattern does.  Paths are relative to the directory that is searched.

    selects_iff : a path is selected when an include pattern and no exclude pattern matches it
-/

namespace CallAlign

def Config.selects (c : Config) (path : String) : Bool :=
  c.includes.any (globMatches · path) && !c.excludes.any (globMatches · path)

theorem selects_iff (config : Config) (path : String) :
    config.selects path = true ↔
      (∃ glob ∈ config.includes, globMatches glob path = true) ∧
        ∀ glob ∈ config.excludes, globMatches glob path = false := by
  simp [Config.selects]

end CallAlign
