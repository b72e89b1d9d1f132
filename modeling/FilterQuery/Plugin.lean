import FilterQuery.Adapter
set_option autoImplicit false

/-!
Plugins watch a compiler at work and may stop it: before a text is read, which they may amend
too, after it has been read, and before and after a query is rendered.
-/

namespace FilterQuery

/-- What is asked of an adapter, which goes by the name that it was asked for under. -/
structure QueryContext where
  adapter : Text
  plan : Plan
  target : Target
  parts : Option (List Part)

inductive Output where
  | text (t : Text)
  | query (q : Query)

/-- What a hook is shown. -/
inductive Occasion where
  | parsing (t : Text)
  | parsed (r : Request)
  | querying (c : QueryContext)
  | queried (c : QueryContext) (o : Output)

def Occasion.stage : Occasion → Stage
  | parsing _ => .beforeParse
  | parsed _ => .afterParse
  | querying _ => .beforeQuery
  | queried _ _ => .afterQuery

/-- The hooks of a plugin. An error is the cause for which it stops the work. -/
structure Plugin where
  name : Text
  version : Text
  amend : Text → Except Text Text
  observe : Occasion → Except Text Unit

def Plugin.idle (name : Text) : Plugin := ⟨name, ['0'], .ok, fun _ => .ok ()⟩

structure HookCall where
  plugin : Text
  version : Text
  occasion : Occasion

/-- The plugins in the order in which they run, each name once. -/
abbrev Plugins := List Plugin

namespace Plugins

def register (p : Plugin) : Plugins → Plugins
  | [] => [p]
  | q :: ps => if q.name = p.name then p :: ps else q :: register p ps

def unregister (name : Text) (ps : Plugins) : Plugins := ps.filter (·.name != name)

def names (ps : Plugins) : List Text := ps.map Plugin.name

end Plugins

end FilterQuery
