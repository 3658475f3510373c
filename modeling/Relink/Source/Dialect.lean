import Relink.Path.Parts
import Relink.Text.Lowercase

namespace Relink

inductive Dialect
  | typescript
  | tsx
  | javascript
  deriving DecidableEq

namespace Dialect

def name : Dialect → Text
  | .typescript => "typescript"
  | .tsx => "tsx"
  | .javascript => "javascript"

def bySuffix : List (Text × Dialect) :=
  [(".ts", .typescript), (".mts", .typescript), (".cts", .typescript), (".tsx", .tsx),
    (".js", .javascript), (".mjs", .javascript), (".cjs", .javascript), (".jsx", .javascript)]

def ofPath (path : Text) : Dialect :=
  (bySuffix.lookup (Path.Parts.ofText path).suffix.lower).getD .typescript

end Dialect

end Relink
