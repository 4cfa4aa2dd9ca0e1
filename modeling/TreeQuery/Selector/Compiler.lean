import TreeQuery.Selector.Compound.Reader
import TreeQuery.Selector.LocationPath

/-!
# Compiling selectors

A selector with several alternatives is compiled as the union of its alternatives, a single one as
its location path. Alternatives and the selectors in arguments are compiled in their turn, one level
deeper, down to a limit. Finished selectors are cached, and a cached selector is not compiled again
at whatever level it is met.
-/

namespace TreeQuery

structure Settings where
  /-- The deepest level that is compiled; the selector itself is at level zero. -/
  maxDepth : Int := 32
  useCache : Bool := true
  deriving DecidableEq, Repr

namespace Settings

/-- The number of levels that are compiled. -/
def levels (s : Settings) : Nat := (s.maxDepth + 1).toNat

end Settings

namespace Selector

/-- The expression of a selector that is not in the cache, given how to compile the parts. -/
def compileUncached (compile : Text → Compilation Text) (selector : Text) : Compilation Text := do
  if Text.isAllBlank selector then .fail (.emptySelector none)
  let groups := alternatives selector
  if 1 < groups.length then
    return List.intercalate ['|'] (← groups.mapM compile)
  -- One alternative: it is not compiled a second time, but read at once.
  let chain ← .ofExcept (Compound.readChain (tokens selector))
  if chain.isEmpty then .fail (.emptySelector (some selector))
  Compound.locationPath compile chain

/-- The expression of a selector at level `depth`, with so many levels left to use. The selector is
looked up first, so that one that is known has an expression even where what it holds would be
nested too deeply. -/
def compileAt (useCache : Bool) : (levels depth : Nat) → Text → Compilation Text
  | 0, depth, selector => .fail (.nestingTooDeep selector depth)
  | levels + 1, depth, selector => do
    if useCache then
      if let some xpath ← .cached? selector then return xpath
      .record (.missed selector)
    let xpath ← compileUncached (compileAt useCache levels (depth + 1)) selector
    .record (.compiled selector xpath)
    if useCache then .remember selector xpath
    return xpath

def compile (settings : Settings) (selector : Text) : Compilation Text :=
  compileAt settings.useCache settings.levels 0 selector

end Selector

end TreeQuery
