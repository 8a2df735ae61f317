import Fghj.Library.Text

/-!
# Repo URLs

The folder a URL clones to, and the spelling of a URL that two spellings of one remote share.
-/

namespace Fghj
namespace RepoUrl

open Text

/-- The last segment of the URL, without its suffix. -/
def repoNameFromUrl (repo : String) : String :=
  String.ofList (trimEndMatches ".git".toList
    ((repo.toList.reverse.takeWhile (· ≠ '/')).reverse))

/-- The first colon becomes a slash. -/
def replaceColon : List Char → List Char
  | [] => []
  | char :: rest => if char = ':' then '/' :: rest else char :: replaceColon rest

/-- The text without the first of the schemes it starts with. -/
def stripScheme (text : List Char) : List Char :=
  match stripPrefix "ssh://".toList text with
  | some rest => rest
  | none =>
      match stripPrefix "https://".toList text with
      | some rest => rest
      | none => (stripPrefix "http://".toList text).getD text

/-- One spelling for `git@host:org/repo.git`, `https://host/org/repo.git` and
`ssh://host/org/repo`. -/
def normalizeRepoUrl (toLowercase : String → String) (repo : String) : String :=
  let text := stripScheme (trim repo.toList)
  let text :=
    match stripPrefix "git@".toList text with
    | some rest => replaceColon rest
    | none => text
  toLowercase (String.ofList (trimEndMatches ['/'] (trimEndMatches ".git".toList text)))

end RepoUrl
end Fghj
