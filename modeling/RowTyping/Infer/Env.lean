import RowTyping.Substitution

namespace RowTyping

structure Env where
  globals : OrderedMap String Scheme
  locals : List (OrderedMap String Scheme)
  deriving DecidableEq, Inhabited

namespace Env

def empty : Env :=
  ⟨[], []⟩

def pushScope (env : Env) : Env :=
  { env with locals := [] :: env.locals }

def popScope (env : Env) : Env :=
  { env with locals := env.locals.tail }

def bind (env : Env) (name : String) (scheme : Scheme) : Env :=
  match env.locals with
  | [] => { env with globals := env.globals.insert name scheme }
  | inner :: outer => { env with locals := inner.insert name scheme :: outer }

def bindAll (env : Env) (bindings : List (String × Scheme)) : Env :=
  bindings.foldl (fun env b => env.bind b.1 b.2) env

def nest (env : Env) (bindings : List (String × Scheme)) : Env :=
  env.pushScope.bindAll bindings

def lookupLocal (env : Env) (name : String) : Option Scheme :=
  env.locals.findSome? (OrderedMap.find? · name)

def lookup (env : Env) (name : String) : Option Scheme :=
  (env.lookupLocal name).or (env.globals.find? name)

def schemes (env : Env) : List Scheme :=
  env.globals.values ++ env.locals.flatMap OrderedMap.values

def names (env : Env) : OrderedSet String :=
  .ofList (env.globals.keys ++ env.locals.flatMap OrderedMap.keys)

def freeTypeVars (env : Env) (s : Substitution) : OrderedSet TypeVarId :=
  .ofList (env.schemes.flatMap fun scheme => (s.applyScheme scheme).freeTypeVars)

def freeRowVars (env : Env) (s : Substitution) : OrderedSet RowVarId :=
  .ofList (env.schemes.flatMap fun scheme => (s.applyScheme scheme).freeRowVars)

theorem popScope_nest (env : Env) (bindings : List (String × Scheme)) :
    (env.nest bindings).popScope = env := by
  have (inner : OrderedMap String Scheme) :
      (bindAll ⟨env.globals, inner :: env.locals⟩ bindings).popScope = env := by
    induction bindings generalizing inner with
    | nil => rfl
    | cons b bs ih => exact ih (inner.insert b.1 b.2)
  exact this []

end Env

end RowTyping
