import SparqlBind.Text.Json

/-!
# The query console

The page shown to browsers that bring no query. Its template has placeholders, which are replaced one
after the other, so a placeholder that stands in a value put in earlier is replaced as well. Texts are
escaped for markup and JSON values for a script.
-/

namespace SparqlBind

/-- Puts `value` for every occurrence of `pattern`, from left to right. `skip` characters belong to
the occurrence before them. -/
def replaceFrom (pattern value : List Char) : Nat → List Char → List Char
  | _, [] => []
  | skip + 1, _ :: rest => replaceFrom pattern value skip rest
  | 0, c :: rest =>
    if pattern.isPrefixOf (c :: rest) then
      value ++ replaceFrom pattern value (pattern.length - 1) rest
    else c :: replaceFrom pattern value 0 rest

def replaceAll (pattern value text : String) : String :=
  String.ofList (replaceFrom pattern.toList value.toList 0 text.toList)

/-! ## Escaping -/

def escapeHtmlChar (c : Char) : List Char :=
  if c = '&' then "&amp;".toList
  else if c = '<' then "&lt;".toList
  else if c = '>' then "&gt;".toList
  else if c = '"' then "&quot;".toList
  else if c = '\'' then "&#39;".toList
  else [c]

/-- The text as it stands in an element or a quoted attribute. -/
def escapeHtml (s : String) : String := String.ofList (s.toList.flatMap escapeHtmlChar)

/-- The JSON text of a value inside a script element, which it must not end. -/
def scriptValue (j : Json) : String := replaceAll "</" "<\\/" j.render

/-! ## The page -/

structure Console where
  /-- The path of the endpoint on its server. -/
  path : String
  title : String
  description : String
  favicon : String
  publicUrl : String
  exampleQuery : String
  exampleQueries : Json

namespace Console

def templateLines : List String := [
    "<!DOCTYPE html>",
    "<html lang=\"en\">",
    "<head>",
    "    <meta charset=\"utf-8\">",
    "    <meta name=\"viewport\" content=\"width=device-width, initial-scale=1\">",
    "    <title>$TITLE</title>",
    "    <meta name=\"description\" content=\"$DESCRIPTION\">",
    "    <link rel=\"icon\" href=\"$FAVICON\">",
    "    <link href=\"https://unpkg.com/@zazuko/yasgui@4/build/yasgui.min.css\" rel=\"stylesheet\" type=\"text/css\">",
    "    <script src=\"https://unpkg.com/@zazuko/yasgui@4/build/yasgui.min.js\"></script>",
    "    <style>",
    "        body \x7b font-family: sans-serif; margin: 0 1em; \x7d",
    "        .yasqe .CodeMirror \x7b min-height: 45vh; \x7d",
    "        .examples button \x7b margin: 0 0.5em 0.5em 0; \x7d",
    "    </style>",
    "</head>",
    "<body>",
    "<h1>$TITLE</h1>",
    "<p>$DESCRIPTION</p>",
    "<div class=\"examples\" id=\"examples\"></div>",
    "<div id=\"yasgui\"></div>",
    "<script>",
    "    const endpoint = new URL($ENDPOINT, window.location.href).href;",
    "    const exampleQuery = $EXAMPLE_QUERY;",
    "    const exampleQueries = $EXAMPLE_QUERIES;",
    "",
    "    Yasqe.defaults.value = exampleQuery;",
    "    const yasgui = new Yasgui(document.getElementById(\"yasgui\"), \x7b",
    "        requestConfig: \x7b endpoint: endpoint, method: \"GET\" \x7d,",
    "        copyEndpointOnNewTab: true,",
    "    \x7d);",
    "",
    "    const examples = document.getElementById(\"examples\");",
    "    for (const [name, example] of Object.entries(exampleQueries || \x7b\x7d)) \x7b",
    "        const button = document.createElement(\"button\");",
    "        button.textContent = name;",
    "        button.addEventListener(\"click\", () => \x7b",
    "            const tab = yasgui.addTab(true, \x7b name: name \x7d);",
    "            tab.setQuery(example.query);",
    "            if (example.endpoint) \x7b",
    "                tab.setEndpoint(example.endpoint);",
    "            \x7d",
    "        \x7d);",
    "        examples.appendChild(button);",
    "    \x7d",
    "</script>",
    "</body>",
    "</html>",
    ""]

def template : String := String.intercalate "\n" templateLines

/-- The placeholders with their values, in the order in which they are replaced. -/
def replacements (c : Console) : List (String × String) :=
  [("$TITLE", escapeHtml c.title), ("$DESCRIPTION", escapeHtml c.description),
    ("$FAVICON", escapeHtml c.favicon), ("$EXAMPLE_QUERIES", scriptValue c.exampleQueries),
    ("$EXAMPLE_QUERY", scriptValue (.string c.exampleQuery)),
    ("$ENDPOINT", scriptValue (.string c.path))]

def page (c : Console) : String :=
  c.replacements.foldl (fun text r => replaceAll r.1 r.2 text) template

end Console

end SparqlBind
