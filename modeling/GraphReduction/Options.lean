import GraphReduction.Text.Blank

/-!
How the evaluator treats bodies. Settings come from named texts, where a few words switch an option
off and any other text switches it on.
-/
namespace GraphReduction

structure Options where
  /-- A panic inside a body becomes an exception instead of leaving the evaluation. -/
  catchPanics : Bool := true
  /-- Every body result is checked against the type of its closure. -/
  checkResults : Bool := false
deriving DecidableEq

namespace Options

def catchPanicsVar : String := "KOMBI_CATCH_PANICS"
def checkResultsVar : String := "KOMBI_CHECK_RESULTS"

/-- The words that switch an option off. -/
def offWords : List String := ["0", "false", "off", "no"]

def flag (setting : String) : Bool :=
  !offWords.any fun off => Text.sameIgnoringCase (Text.trimmed setting.toList) off.toList

/-- The defaults, overridden by the settings that `setting?` knows. -/
def ofSettings (setting? : String → Option String) : Options where
  catchPanics := ((setting? catchPanicsVar).map flag).getD (Options.catchPanics {})
  checkResults := ((setting? checkResultsVar).map flag).getD (Options.checkResults {})

/-- Override each option for which a value is given. -/
def override (o : Options) (catchPanics checkResults : Option Bool) : Options where
  catchPanics := catchPanics.getD o.catchPanics
  checkResults := checkResults.getD o.checkResults

end Options

end GraphReduction
