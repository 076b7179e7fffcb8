import ModelPool.Files.Path

/-!
# Run/Report — what a run has done

A report is filled in as a run goes on; a run that is aborted leaves the rest as it was.
-/

namespace ModelPool

/-- **A summary of a run.** -/
structure RunReport where
  poolDir : FilePath
  package : Option String
  imports : List String
  loadedPackages : List String
  models : List String
  files : List FilePath
  warnings : Nat
  digest : Option String
deriving DecidableEq

/-- The report of a run that has done nothing yet. -/
def RunReport.start (poolDir : FilePath) : RunReport := ⟨poolDir, none, [], [], [], [], 0, none⟩

end ModelPool
