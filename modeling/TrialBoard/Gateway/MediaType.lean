/-!
# Media types by extension

The extension of a file's name is what follows its last dot, unless that dot comes first.
-/

namespace TrialBoard.Gateway

/-- The media types of extensions in lower case. -/
def mediaTypes : List (String × String) :=
  [ ("html", "text/html"), ("htm", "text/html"), ("css", "text/css"),
    ("js", "text/javascript"), ("mjs", "text/javascript"), ("json", "application/json"),
    ("txt", "text/plain"), ("log", "text/plain"), ("conf", "text/plain"), ("ini", "text/plain"),
    ("csv", "text/csv"), ("md", "text/markdown"), ("xml", "text/xml"),
    ("xhtml", "application/xhtml+xml"), ("svg", "image/svg+xml"), ("png", "image/png"),
    ("jpg", "image/jpeg"), ("jpeg", "image/jpeg"), ("gif", "image/gif"), ("webp", "image/webp"),
    ("bmp", "image/bmp"), ("ico", "image/x-icon"), ("pdf", "application/pdf"),
    ("wasm", "application/wasm"), ("woff", "font/woff"), ("woff2", "font/woff2"),
    ("ttf", "font/ttf"), ("otf", "font/otf"), ("zip", "application/zip"),
    ("gz", "application/gzip"), ("tar", "application/x-tar"), ("mp3", "audio/mpeg"),
    ("mp4", "video/mp4"), ("webm", "video/webm"), ("wav", "audio/wav"), ("ogg", "audio/ogg"),
    ("yaml", "text/x-yaml"), ("yml", "text/x-yaml"), ("toml", "text/x-toml") ]

/-- The extension of a file's name. -/
def extension? (name : String) : Option String :=
  match name.toList.reverse.span (· != '.') with
  | (_, []) => none
  | (_, [_]) => none
  | (reversed, _ :: _ :: _) => some (String.ofList reversed.reverse)

/-- The media type of a file's name. -/
def mediaType (name : String) : String :=
  ((extension? name).bind fun e => mediaTypes.lookup e.toLower).getD "application/octet-stream"

end TrialBoard.Gateway
