import ClosedSum.Core.Expr
import ClosedSum.Variant.Decl

/-!
# Programs

What is generated for a source file: the declarations of its variants and the compiled bodies of its
functions.
-/

namespace ClosedSum.Core

structure Function where
  name : String
  params : List String
  body : Expr

structure Program where
  decls : List Variant.Decls := []
  functions : List Function := []

end ClosedSum.Core
