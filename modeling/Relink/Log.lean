import Relink.Text

namespace Relink

inductive Level
  | debug
  | info
  | warning
  | error
  deriving DecidableEq

inductive Channel
  | config
  | resolver
  | rewriter
  | source
  | converter
  | command
  deriving DecidableEq

structure Record where
  level : Level
  channel : Channel
  message : Text
  deriving DecidableEq

def Level.name : Level → Text
  | .debug => "DEBUG"
  | .info => "INFO"
  | .warning => "WARNING"
  | .error => "ERROR"

def Level.rank : Level → Nat
  | .debug => 0
  | .info => 1
  | .warning => 2
  | .error => 3

def Channel.name : Channel → Text
  | .config => "tsrewrite.config"
  | .resolver => "tsrewrite.file_resolver"
  | .rewriter => "tsrewrite.rewriter"
  | .source => "tsrewrite.syntax"
  | .converter => "tsrewrite.converter"
  | .command => "tsrewrite.cli"

abbrev Log := List Record

end Relink
