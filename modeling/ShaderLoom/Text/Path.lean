/-! Slash-separated paths. -/
namespace ShaderLoom.Path

/-- The last element of a path, trailing slashes aside: `sub` for `dir/sub/`, `/` for slashes alone
and `.` for nothing. -/
def base (path : String) : String :=
  if path.isEmpty then "."
  else
    let kept := path.toList.reverse.dropWhile (· == '/')
    if kept.isEmpty then "/" else String.ofList (kept.takeWhile (· != '/')).reverse

/-- The elements that a cleaned path keeps: no empty ones, no `.`, and `..` takes its predecessor
away unless there is none left to take. -/
def cleanElements (rooted : Bool) (elements : List String) : List String :=
  let kept := elements.foldl (fun acc e =>
    if e == "" || e == "." then acc
    else if e == ".." then
      match acc with
      | [] => if rooted then [] else [".."]
      | top :: rest => if top == ".." then ".." :: acc else rest
    else e :: acc) ([] : List String)
  kept.reverse

/-- The shortest path with the same meaning. -/
def clean (path : String) : String :=
  let rooted := path.startsWith "/"
  let body := "/".intercalate (cleanElements rooted (path.splitOn "/"))
  if rooted then "/" ++ body else if body.isEmpty then "." else body

/-- Two paths joined and cleaned; empty ones are left out. -/
def join (a b : String) : String :=
  match a.isEmpty, b.isEmpty with
  | true, true => ""
  | true, false => clean b
  | false, true => clean a
  | false, false => clean (a ++ "/" ++ b)

/-- What stands before the last element, trailing slashes and the slash before the element aside. -/
def parent (path : String) : String :=
  let kept := (path.toList.reverse.dropWhile (· == '/')).dropWhile (· != '/')
  String.ofList kept.tail.reverse

/-- The last element's suffix from its last point on, empty if it has none. -/
def extension (path : String) : String :=
  let name := path.toList.reverse.takeWhile (· != '/')
  if name.contains '.' then String.ofList ('.' :: (name.takeWhile (· != '.')).reverse) else ""

end ShaderLoom.Path
