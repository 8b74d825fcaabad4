import ModuleLoader.Path.Policy

/-!
# Canonical spelling

`.` and `..` segments are resolved by their text alone; no directory is looked at.

* a `.` after a separator is dropped;
* a `..` between two separators deletes the segment before it; at the root there is none, and it
  vanishes; a relative path that has none left keeps it;
* a `..` that ends the path has no separator after it and stays;
* one trailing separator is dropped, and a relative path that collapses to nothing is `.`.

The definitions: `ascend` is the effect of one `..` on the segments kept so far (last first),
`collapse` runs over the segments, `canonicalText` is the whole on a text, `canonical` on a path
under the standard policy and `Policy.canonical` under any.
-/

namespace ModuleLoader.Path

/-- The segments kept, last first, after a `..` between two separators. -/
def ascend (rooted : Bool) : List Segment → List Segment
  | [] => [parent]
  | [first] =>
    if rooted then [first]
    else if first = parent ∨ first = current then [parent, first]
    else []
  | last :: kept => if last = parent then parent :: last :: kept else kept

/-- The segments kept, last first, after the remaining segments were read. -/
def collapse (rooted : Bool) (kept : List Segment) : List Segment → List Segment
  | [] => kept
  | segment :: rest =>
    if segment = current then collapse rooted kept rest
    else if segment = parent ∧ rest ≠ [] then collapse rooted (ascend rooted kept) rest
    else collapse rooted (segment :: kept) rest

/-- The segments without an empty last one, unless it is the only one. -/
def dropTrailing : List Segment → List Segment
  | [] :: kept => if kept.isEmpty then [[]] else kept
  | kept => kept

/-- The segments that are kept of a path, last first. -/
def keptSegments (rooted : Bool) : List Segment → List Segment
  | [] => []
  | first :: rest => dropTrailing (collapse rooted [first] rest)

def canonicalText (separator : List Char) (rooted : Bool) (path : List Char) : List Char :=
  let result := Text.join separator (keptSegments rooted (Text.split separator path)).reverse
  if result.isEmpty && !path.isEmpty then
    if rooted then separator else current
  else result

/-- The canonical spelling of a path under the standard policy. -/
def canonical (path : String) : String :=
  String.ofList (canonicalText ['/'] (isRootedText ['/'] false path.toList) path.toList)

/-- The canonical spelling of a path under a policy; an empty separator has none. -/
def Policy.canonical (policy : Policy) (path : String) : Except Fault String :=
  if policy.separator.isEmpty then .error .emptySeparator
  else
    .ok (String.ofList
      (canonicalText policy.separator.toList (policy.isRooted path) path.toList))

end ModuleLoader.Path
