import RuleScan.Value.Basic

/-! Laying one object over another: where both have an object it is merged, and else the later value counts. An object
gets no first member with the key of its prototype. An object that is laid over it there is its prototype from then on,
and what is laid over it later is merged with what shows through. -/

namespace RuleScan

/-- An object that others are laid over. -/
structure Overlay where
  own : Members
  /-- The members of its prototype, which show through where it has none of its own. -/
  inherited : Members := []

namespace Overlay

def prototypeKey : String := "__proto__"

def seen? (o : Overlay) (key : String) : Option Value := (o.own.get? key).or (o.inherited.get? key)

def set (o : Overlay) (key : String) (value : Value) : Overlay := { o with own := o.own.set key value }

/-- Whether a member with this key sets the prototype and is not kept. -/
def loses (o : Overlay) (key : String) : Bool := key = prototypeKey && !o.own.contains key

mutual

/-- Lays members over an object, one after the other. -/
def layAll (o : Overlay) : Members → Overlay
  | [] => o
  | (key, value) :: rest => layAll (lay o key value) rest

/-- Lays one member over an object. -/
def lay (o : Overlay) (key : String) : Value → Overlay
  | .obj inner =>
    if o.loses key then
      let prototype := layAll { own := [] } inner
      { o with inherited := prototype.own ++ prototype.inherited }
    else
      match o.seen? key with
      | some (.obj outer) => o.set key (.obj (layAll { own := outer } inner).own)
      | _ => o.set key (.obj inner)
  | v => if o.loses key then o else o.set key v

end

end Overlay

namespace Value

/-- The members of one object laid over those of another. -/
def mergeMembers (target source : Members) : Members := (Overlay.layAll { own := target } source).own

end Value

end RuleScan
