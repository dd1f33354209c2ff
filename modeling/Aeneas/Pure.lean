import Aeneas.Collections

/-!
# The pure AST

Types, patterns and expressions of the lambda-calculus the functions are
translated to. An expression is a tree whose nodes hold their subexpressions
directly, in lists or in small records; the records are parameterized by the
type of the subexpressions, so that a visitor can put its results in their place.
-/

namespace Aeneas.Pure

abbrev TypeDeclId := Nat
abbrev TypeVarId := Nat
abbrev ConstGenericVarId := Nat
abbrev VariantId := Nat
abbrev FieldId := Nat
abbrev FunDeclId := Nat
abbrev GlobalDeclId := Nat
abbrev TraitDeclId := Nat
abbrev TraitImplId := Nat
abbrev TraitMethodId := Nat
abbrev TraitClauseId := Nat
abbrev AssocTypeId := Nat
abbrev AssocConstId := Nat
abbrev LoopId := Nat
abbrev LocalId := Nat
abbrev BVarId := Nat
abbrev FVarId := Nat

abbrev Span := Nat

/-! ## Types -/

inductive IntTy where
  | isize | i8 | i16 | i32 | i64 | i128
deriving DecidableEq

inductive UIntTy where
  | usize | u8 | u16 | u32 | u64 | u128
deriving DecidableEq

inductive IntegerType where
  | signed (ty : IntTy)
  | unsigned (ty : UIntTy)
deriving DecidableEq

inductive FloatType where
  | f16 | f32 | f64 | f128
deriving DecidableEq

inductive LiteralType where
  | int (ty : IntTy)
  | uInt (ty : UIntTy)
  | float (ty : FloatType)
  | bool
  | char
  | pureNat
  | pureInt
deriving DecidableEq

inductive Literal where
  | scalar (value : Int) (ty : IntegerType)
  | float (value : String) (ty : FloatType)
  | bool (value : Bool)
  | char (value : Nat)
  | byteStr (value : List Nat)
  | str (value : String)
  | pureNat (value : Int)
  | pureInt (value : Int)
deriving DecidableEq

inductive Mutability where
  | mut | const
deriving DecidableEq

inductive BuiltinTy where
  | result | sum | loopResult | error | fuel | array | slice | str
  | rawPtr (m : Mutability)
deriving DecidableEq

inductive TypeId where
  | adtId (id : TypeDeclId)
  | tuple
  | builtin (ty : BuiltinTy)
deriving DecidableEq

inductive DeBruijnVar where
  | bound (index : Nat) (id : Nat)
  | free (id : Nat)
deriving DecidableEq

inductive ConstGeneric where
  | global (id : GlobalDeclId)
  | var (v : DeBruijnVar)
  | value (l : Literal)
deriving DecidableEq

inductive BuiltinImplData where
  | copy | clone | discriminantKind | fn | fnMut | fnOnce
deriving DecidableEq

structure TypeParam where
  index : TypeVarId
  name : String
deriving DecidableEq

structure ConstGenericParam where
  index : ConstGenericVarId
  name : String
  ty : LiteralType
deriving DecidableEq

mutual

inductive Ty where
  | adt (id : TypeId) (generics : GenericArgs)
  | var (v : DeBruijnVar)
  | literal (ty : LiteralType)
  | arrow (input output : Ty)
  | traitType (ref : TraitRef) (id : AssocTypeId)
  | never
  | dynTrait (params : GenericParams)
  | error

inductive TraitRef where
  | mk (traitId : TraitInstanceId) (traitDeclRef : TraitDeclRef)

inductive TraitDeclRef where
  | mk (traitDeclId : TraitDeclId) (declGenerics : GenericArgs)

inductive GenericArgs where
  | mk (types : List Ty) (constGenerics : List ConstGeneric) (traitRefs : List TraitRef)

inductive TraitInstanceId where
  | self
  | traitImpl (id : TraitImplId) (generics : GenericArgs)
  | clause (v : DeBruijnVar)
  | parentClause (inst : TraitInstanceId) (declId : TraitDeclId) (clauseId : TraitClauseId)
  | builtinOrAuto (data : BuiltinImplData)
  | unknownTrait (message : String)

inductive TraitParam where
  | mk (clauseId : TraitClauseId) (traitId : TraitDeclId) (generics : GenericArgs)

inductive GenericParams where
  | mk (types : List TypeParam) (constGenerics : List ConstGenericParam) (traitClauses : List TraitParam)

end

/-! ## Patterns -/

structure GlobalDeclRef where
  globalId : GlobalDeclId
  globalGenerics : GenericArgs

structure MProjectionElem where
  typeId : TypeId
  variantId : Option VariantId
  fieldId : FieldId

inductive MPlace where
  | placeLocal (id : LocalId) (name : Option String)
  | placeGlobal (ref : GlobalDeclRef)
  | placeProjection (place : MPlace) (elem : MProjectionElem)

structure Var where
  basename : Option String
  ty : Ty

structure FVar where
  id : FVarId
  basename : Option String
  ty : Ty

mutual

/-- The index of a variable of a pattern is its position in a depth-first search;
opening a binder replaces `bound` with `opened`. -/
inductive Pat where
  | constant (l : Literal)
  | bound (v : Var) (mp : Option MPlace)
  | ignored
  | opened (v : FVar) (mp : Option MPlace)
  | adt (variantId : Option VariantId) (fields : List TPat)

inductive TPat where
  | mk (pat : Pat) (ty : Ty)

end

/-! ## Qualifiers -/

inductive OverflowMode where
  | panic | wrap | ub
deriving DecidableEq

inductive CastKind where
  | lit (src tgt : LiteralType)
  | rawPtr (src tgt : LiteralType × Mutability)
deriving DecidableEq

inductive Unop where
  | not (ty : Option IntegerType)
  | neg (ty : IntegerType)
  | cast (kind : CastKind)
  | arrayToSlice
deriving DecidableEq

inductive Binop where
  | bitXor (ty : IntegerType) | bitAnd (ty : IntegerType) | bitOr (ty : IntegerType)
  | eq (ty : Ty) | ne (ty : Ty)
  | lt (ty : LiteralType) | le (ty : LiteralType) | ge (ty : LiteralType) | gt (ty : LiteralType)
  | add (m : OverflowMode) (ty : IntegerType) | sub (m : OverflowMode) (ty : IntegerType)
  | mul (m : OverflowMode) (ty : IntegerType) | div (m : OverflowMode) (ty : IntegerType)
  | rem (m : OverflowMode) (ty : IntegerType)
  | addChecked (ty : IntegerType) | subChecked (ty : IntegerType) | mulChecked (ty : IntegerType)
  | shl (m : OverflowMode) (ty count : IntegerType) | shr (m : OverflowMode) (ty count : IntegerType)
  | cmp (ty : IntegerType)
  | boolAnd | boolOr | boolXor

inductive ArrayOrSlice where
  | array | slice
deriving DecidableEq

inductive PureBuiltinFunId where
  | ret | fail | assert
  | loop (arity : Nat)
  | recLoopCall (arity : Nat)
  | fuelDecrease | fuelEqZero
  | updateAtIndex (k : ArrayOrSlice) | indexAtIndex (k : ArrayOrSlice) | indexMutAtIndex (k : ArrayOrSlice)
  | toResult | discriminant | resultUnwrapMut | getTarget | targetFeatureEnabled
deriving DecidableEq

inductive FnPtrKind where
  | funId (id : FunDeclId)
  | traitMethod (ref : TraitRef) (id : TraitMethodId)

/-- The pair `(loopId, isBody)` is there if the function was generated for a loop. -/
inductive FunId where
  | fromLlbc (id : FnPtrKind) (lpId : Option (LoopId × Bool))
  | pure (id : PureBuiltinFunId)

inductive FunOrOpId where
  | funE (id : FunId)
  | unop (op : Unop)
  | binop (op : Binop)

structure AdtConsId where
  adtId : TypeId
  variantId : Option VariantId

structure Projection where
  adtId : TypeId
  fieldId : FieldId

inductive QualifId where
  | funOrOp (id : FunOrOpId)
  | global (id : GlobalDeclId)
  | adtCons (id : AdtConsId)
  | proj (p : Projection)
  | scalarValProj (ty : IntegerType)
  | traitConst (ref : TraitRef) (id : AssocConstId)
  | mkDynTrait (ref : TraitRef)
  | loopOp

structure Qualif where
  id : QualifId
  generics : GenericArgs

/-! ## Expressions -/

/-- `scope` counts the binder groups between the variable and its own one, `id`
is the index of the variable in its group. -/
structure BVar where
  scope : Int
  id : BVarId
deriving DecidableEq

structure MatchBranch (α : Type) where
  pat : TPat
  branch : α

inductive SwitchBody (α : Type) where
  | ite (thn els : α)
  | matchE (branches : List (MatchBranch α))

structure LoopBody (α : Type) where
  inputs : List TPat
  loopBody : α

structure Loop (α : Type) where
  loopId : LoopId
  span : Span
  outputTys : List Ty
  numOutputValues : Nat
  inputs : List α
  numInputConts : Nat
  loopBody : LoopBody α
  toRec : Bool

structure StructUpdate (α : Type) where
  structId : TypeId
  init : Option α
  updates : List (FieldId × α)

inductive EMeta (α : Type) where
  | assignment (dest : MPlace) (value : α) (origin : Option MPlace)
  | symbolicAssignments (l : List (α × α))
  | symbolicPlaces (l : List (α × String))
  | mPlace (mp : MPlace)
  | tag (message : String)
  | typeAnnot

mutual

inductive Expr where
  | fvar (id : FVarId)
  | bvar (v : BVar)
  | cvar (id : ConstGenericVarId)
  | const (l : Literal)
  | app (f x : Texpr)
  | lambda (pat : TPat) (inner : Texpr)
  | qualif (q : Qualif)
  | letE (monadic : Bool) (pat : TPat) (bound next : Texpr)
  | switch (scrut : Texpr) (body : SwitchBody Texpr)
  | loop (l : Loop Texpr)
  | structUpdate (s : StructUpdate Texpr)
  | emeta (m : EMeta Texpr) (e : Texpr)
  | eError (span : Option Span) (message : String)

inductive Texpr where
  | mk (e : Expr) (ty : Ty)

end

def Texpr.e : Texpr → Expr
  | .mk e _ => e

def Texpr.ty : Texpr → Ty
  | .mk _ ty => ty

/-- The inputs form a single binder group. -/
structure FunBody where
  inputs : List TPat
  body : Texpr

structure FunDecl where
  defId : FunDeclId
  loopId : Option (LoopId × Bool)
  body : Option FunBody

end Aeneas.Pure
