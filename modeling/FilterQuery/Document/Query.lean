import FilterQuery.Document.Filter
import FilterQuery.Part
import FilterQuery.Policy
set_option autoImplicit false

/-!
Plans as queries of a document store: a `find` with its options, or a pipeline of stages that can
load relations too.
-/

namespace FilterQuery.Document

/-- The order of records. A field that comes twice keeps its first place and its last direction. -/
def sort (keys : List SortKey) : Json :=
  .ofEntries (keys.map fun k => (k.field, .int (match k.direction with
    | .asc => 1
    | .desc => -1)))

def projection (names : List Text) : Json := .ofEntries (names.map fun n => (n, .int 1))

def entryIf (present : Bool) (key : String) (x : Json) : List (Text × Json) :=
  if present then [(key.toList, x)] else []

def find (p : Plan) : Json :=
  let page := p.request.page
  .object ([("filter".toList, (p.request.filter.map ofExpr).getD (.object [])),
      ("sort".toList, sort p.request.sort)] ++
    entryIf (0 < page.skip) "skip" (.int page.skip) ++
    entryIf (0 < page.take) "limit" (.int page.take) ++
    entryIf (!p.selected.isEmpty) "projection" (projection p.selected))

def lookup (collection relation : Text) (es : List Expr) : Json :=
  .single "$lookup".toList (.object [("from".toList, .text collection),
    ("pipeline".toList, .array ((conjunction? es).toList.map (.single "$match".toList))),
    ("as".toList, .text relation)])

def group (names : List Text) : Json :=
  .single "_id".toList (.ofEntries (names.map fun n => (n, .text ('$' :: n))))

def aggregate (collection : Text → Text) (p : Plan) : Json :=
  let page := p.request.page
  let stages :=
    (p.request.filter.map fun e => ("$match".toList, ofExpr e)).toList ++
    entryIf (!p.groupBy.isEmpty) "$group" (group p.groupBy) ++
    entryIf (!p.request.sort.isEmpty) "$sort" (sort p.request.sort) ++
    entryIf (0 < page.skip) "$skip" (.int page.skip) ++
    entryIf (0 < page.take) "$limit" (.int page.take) ++
    entryIf (!p.selected.isEmpty) "$project" (projection p.selected)
  .array ((p.request.preloads.map fun (r, es) => lookup (collection r) r es) ++
    stages.map fun (k, x) => .single k x)

/-- The document of one part, none for a part that document queries do not have. -/
def part? (collection : Text → Text) (p : Plan) : Part → Option Json
  | .find => some (find p)
  | .aggregate => some (aggregate collection p)
  | _ => none

def parts (collection : Text → Text) (p : Plan) (ps : List Part) : Json :=
  .ofEntries (ps.filterMap fun part => (part? collection p part).map fun x => (part.tag, x))

end FilterQuery.Document
