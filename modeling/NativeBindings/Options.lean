/-!
# Options

Four switches decide how bindings are generated.
-/

namespace NativeBindings

/-- How bindings are generated. -/
structure Options where
  /-- Refer to types without their namespace. -/
  omitNamespaces : Bool := false
  /-- Stand in an unknown type for references without a record instead of refusing them. -/
  allowMissing : Bool := false
  /-- Cover the instantiations of a template with one generic declaration where possible. -/
  unifyTemplates : Bool := true
  /-- Put documentation lines above declarations. -/
  documented : Bool := true
deriving DecidableEq, Repr, Inhabited

end NativeBindings
