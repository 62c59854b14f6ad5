/-! The languages that can be analyzed. -/

namespace RuleScan

inductive Language where
  | typescript
  | javascript
  | python
  | java
  | go
  deriving DecidableEq, Inhabited

namespace Language

/-- Every language, in the order in which messages list them. -/
def all : List Language := [.typescript, .javascript, .python, .java, .go]

def name : Language → String
  | .typescript => "typescript"
  | .javascript => "javascript"
  | .python => "python"
  | .java => "java"
  | .go => "go"

def ofName? (s : String) : Option Language := all.find? (·.name == s)

end Language

end RuleScan
