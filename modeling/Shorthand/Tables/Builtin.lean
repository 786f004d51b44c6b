import Shorthand.Tables

/-! The tables that come with the library. -/
namespace Shorthand.Tables

def builtinAliases : List (String × String) :=
  [("a:link", "a[href=http://]"),
   ("a:mail", "a[href=mailto:]"),
   ("abbr", "abbr[title]"),
   ("bq", "blockquote"),
   ("btn", "button"),
   ("fst", "fieldset"),
   ("leg", "legend"),
   ("sect", "section"),
   ("art", "article"),
   ("hdr", "header"),
   ("ftr", "footer"),
   ("adr", "address"),
   ("dlg", "dialog"),
   ("str", "strong"),
   ("prog", "progress"),
   ("opt", "option"),
   ("tarea", "textarea"),
   ("link:css", "link[href=style.css]"),
   ("link:favicon", "link[rel=\"shortcut icon\" type=image/x-icon href=favicon.ico]"),
   ("meta:utf", "meta[http-equiv=Content-Type content=\"text/html;charset=UTF-8\"]"),
   ("meta:vp", "meta[name=viewport content=\"width=device-width, initial-scale=1.0\"]"),
   ("script:src", "script[src]"),
   ("input:hidden", "input[type=hidden name]"),
   ("input:text", "input[type=text name id]"),
   ("input:email", "input[type=email name id]"),
   ("input:password", "input[type=password name id]"),
   ("input:checkbox", "input[type=checkbox name id]"),
   ("input:radio", "input[type=radio name id]"),
   ("input:submit", "input[type=submit value]"),
   ("input:button", "input[type=button value]"),
   ("btn:s", "button[type=submit]"),
   ("btn:r", "button[type=reset]"),
   ("img:srcset", "img[srcset alt]"),
   ("html:5", "!!!+html[lang=en]>(head>meta[charset=UTF-8]+title\x7bDocument\x7d)+body"),
   ("ol+", "ol>li"),
   ("ul+", "ul>li"),
   ("dl+", "dl>dt+dd"),
   ("map+", "map>area"),
   ("table+", "table>tr>td"),
   ("colgroup+", "colgroup>col"),
   ("tr+", "tr>td"),
   ("select+", "select>option"),
   ("optgroup+", "optgroup>option")]

def voidTags : List String :=
  ["area", "base", "br", "col", "embed", "hr", "img", "input", "link", "meta", "param",
   "source", "track", "wbr"]

def blockTags : List String :=
  ["html", "head", "body", "ul", "ol", "dl", "table", "tr", "thead", "tbody", "tfoot", "select",
   "form", "section", "article", "nav", "header", "footer", "main", "aside"]

def defaultAttributes : Table String (List (String × String)) :=
  [("a", [("href", "")]),
   ("img", [("src", ""), ("alt", "")]),
   ("link", [("rel", "stylesheet"), ("href", "")]),
   ("input", [("type", "text")]),
   ("form", [("action", "")]),
   ("label", [("for", "")]),
   ("iframe", [("src", ""), ("frameborder", "0")]),
   ("area", [("shape", ""), ("coords", ""), ("href", ""), ("alt", "")])]

def htmlSnippets : Table String String :=
  [("!!!", "<!doctype html>"),
   ("!!!4t",
      "<!DOCTYPE HTML PUBLIC \"-//W3C//DTD HTML 4.01 Transitional//EN\" \"http://www.w3.org/TR/html4/loose.dtd\">"),
   ("!!!xt",
      "<!DOCTYPE html PUBLIC \"-//W3C//DTD XHTML 1.0 Transitional//EN\" \"http://www.w3.org/TR/xhtml1/DTD/xhtml1-transitional.dtd\">"),
   ("cc:ie", "<!--[if IE]>\n    $\x7bchild\x7d|\n<![endif]-->"),
   ("cc:noie", "<!--[if !IE]><!-->\n    $\x7bchild\x7d|\n<!--<![endif]-->")]

def hamlSnippets : Table String String :=
  [("!!!", "!!! 5"), ("!!!xt", "!!! Transitional")]

def declarationSnippets : Table String String :=
  [("m", "margin: |;"),
   ("mt", "margin-top: |;"),
   ("mr", "margin-right: |;"),
   ("mb", "margin-bottom: |;"),
   ("ml", "margin-left: |;"),
   ("p", "padding: |;"),
   ("pt", "padding-top: |;"),
   ("pr", "padding-right: |;"),
   ("pb", "padding-bottom: |;"),
   ("pl", "padding-left: |;"),
   ("w", "width: |;"),
   ("h", "height: |;"),
   ("maw", "max-width: |;"),
   ("mah", "max-height: |;"),
   ("miw", "min-width: |;"),
   ("mih", "min-height: |;"),
   ("t", "top: |;"),
   ("r", "right: |;"),
   ("b", "bottom: |;"),
   ("l", "left: |;"),
   ("z", "z-index: |;"),
   ("zm", "zoom: |;"),
   ("op", "opacity: |;"),
   ("lh", "line-height: |;"),
   ("fw", "font-weight: |;"),
   ("fz", "font-size: |;"),
   ("ff", "font-family: |;"),
   ("c", "color: $\x7b1:#000\x7d;"),
   ("bg", "background: $\x7b1:#000\x7d;"),
   ("bgc", "background-color: $\x7b1:#fff\x7d;"),
   ("bd", "border: $\x7b1:1px\x7d $\x7b2:solid\x7d $\x7b3:#000\x7d;"),
   ("bdrs", "border-radius: |;"),
   ("bxsh",
      "box-shadow: $\x7b1:inset \x7d$\x7b2:hoff\x7d $\x7b3:voff\x7d $\x7b4:blur\x7d $\x7b5:color\x7d;"),
   ("trf", "transform: |;"),
   ("trs", "transition: $\x7b1:prop\x7d $\x7b2:time\x7d;"),
   ("us", "user-select: $\x7b1:none\x7d;"),
   ("d", "display: $\x7b1:block\x7d;"),
   ("dn", "display: none;"),
   ("db", "display: block;"),
   ("di", "display: inline;"),
   ("dib", "display: inline-block;"),
   ("df", "display: flex;"),
   ("pos", "position: $\x7b1:relative\x7d;"),
   ("fl", "float: $\x7b1:left\x7d;"),
   ("cl", "clear: $\x7b1:both\x7d;"),
   ("ov", "overflow: $\x7b1:hidden\x7d;"),
   ("cur", "cursor: $\x7b1:pointer\x7d;"),
   ("ta", "text-align: $\x7b1:left\x7d;"),
   ("td", "text-decoration: $\x7b1:none\x7d;"),
   ("tt", "text-transform: $\x7b1:uppercase\x7d;"),
   ("va", "vertical-align: $\x7b1:top\x7d;"),
   ("ws", "white-space: $\x7b1:nowrap\x7d;"),
   ("fx", "flex: |;"),
   ("fxg", "flex-grow: |;"),
   ("fxs", "flex-shrink: |;"),
   ("ord", "order: |;"),
   ("ct", "content: $\x7b1:''\x7d;")]

def builtinVendors : Table String (List String) :=
  [("bdrs", ["webkit", "moz"]),
   ("border-radius", ["webkit", "moz"]),
   ("bxsh", ["webkit", "moz"]),
   ("box-shadow", ["webkit", "moz"]),
   ("trf", ["webkit", "moz", "ms", "o"]),
   ("transform", ["webkit", "moz", "ms", "o"]),
   ("trs", ["webkit", "moz", "o"]),
   ("transition", ["webkit", "moz", "o"]),
   ("us", ["webkit", "moz", "ms"]),
   ("user-select", ["webkit", "moz", "ms"])]

def builtinUnitless : List String :=
  ["z-index", "line-height", "opacity", "font-weight", "zoom", "flex-grow", "flex-shrink",
   "order"]

def builtinUnits : Table String String :=
  [("e", "em"), ("p", "%"), ("x", "ex"), ("r", "rem")]

def builtinFilters : Table String (List String) :=
  [("haml", ["haml"]), ("clj", ["hic"]), ("cljs", ["hic"]), ("cljc", ["hic"]), ("edn", ["hic"])]

/-- Void tags close themselves, block tags take lines of their own, and either kind
may have default attributes. -/
def builtinTagSettings : Table String TagSettings :=
  let void : Table String TagSettings := voidTags.map fun name => (name, { selfClosing := true })
  let blocks := void.insertAll (blockTags.map fun name => (name, { block := true }))
  defaultAttributes.foldl (fun settings (name, defaults) =>
    settings.insert name { (settings.get? name).getD {} with defaults }) blocks

def builtin : Tables :=
  { aliases := builtinAliases.map fun (name, text) => (name, .source text)
    tagSnippets := [(.html, htmlSnippets), (.haml, hamlSnippets), (.hiccup, [])]
    tagSettings := builtinTagSettings
    unitAliases := builtinUnits
    vendorPrefixes := builtinVendors
    unitless := builtinUnitless
    styleSnippets := [(.standard, declarationSnippets), (.indented, declarationSnippets)]
    defaultFilters := builtinFilters }

end Shorthand.Tables
