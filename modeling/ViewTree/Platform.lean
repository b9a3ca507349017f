import ViewTree.Text.Case
/-!
# The elements of the web platform

Tables of tag names: what is an element of the platform, what closes itself, what may be left
open, and which attributes are set as properties. Names compare exactly; only the raw-text
elements are recognized in any ASCII case.
-/

namespace ViewTree.Platform

/-- Elements of HTML. -/
def htmlTags : List String :=
  ["html", "body", "base", "head", "link", "meta", "style", "title",
    "address", "article", "aside", "footer", "header", "h1", "h2", "h3", "h4", "h5", "h6",
    "hgroup", "nav", "section",
    "div", "dd", "dl", "dt", "figcaption", "figure", "picture", "hr", "img", "li", "main", "ol",
    "p", "pre", "ul",
    "a", "b", "abbr", "bdi", "bdo", "br", "cite", "code", "data", "dfn", "em", "i", "kbd",
    "mark", "q", "rp", "rt", "rtc", "ruby",
    "s", "samp", "small", "span", "strong", "sub", "sup", "time", "u", "var", "wbr", "area",
    "audio", "map", "track", "video",
    "embed", "object", "param", "source", "canvas", "script", "noscript", "del", "ins",
    "caption", "col", "colgroup", "table", "thead", "tbody", "td", "th", "tr",
    "button", "datalist", "fieldset", "form", "input", "label", "legend", "meter", "optgroup",
    "option",
    "output", "progress", "select", "textarea",
    "details", "dialog", "menu", "menuitem", "summary",
    "content", "element", "shadow", "template", "blockquote", "iframe", "tfoot"]

/-- Elements of SVG that may contain children. -/
def svgTags : List String :=
  ["svg", "animate", "circle", "clippath", "cursor", "defs", "desc", "ellipse", "filter",
    "font-face",
    "foreignObject", "g", "glyph", "image", "line", "marker", "mask", "missing-glyph", "path",
    "pattern",
    "polygon", "polyline", "rect", "switch", "symbol", "text", "textpath", "tspan", "use", "view"]

/-- Elements without content or end tag. -/
def unaryTags : List String :=
  ["area", "base", "br", "col", "embed", "frame", "hr", "img", "input", "isindex", "keygen",
    "link", "meta", "param", "source", "track", "wbr"]

/-- Elements that a further one of their own kind closes. -/
def leftOpenTags : List String :=
  ["colgroup", "dd", "dt", "li", "options", "p", "td", "tfoot", "th", "thead", "tr", "source"]

/-- Elements that close an open paragraph. -/
def nonPhrasingTags : List String :=
  ["address", "article", "aside", "base", "blockquote", "body", "caption", "col", "colgroup",
    "dd",
    "details", "dialog", "div", "dl", "dt", "fieldset", "figcaption", "figure", "footer", "form",
    "h1", "h2", "h3", "h4", "h5", "h6", "head", "header", "hgroup", "hr", "html", "legend", "li",
    "menuitem", "meta",
    "optgroup", "option", "param", "rp", "rt", "source", "style", "summary", "tbody", "td",
    "tfoot", "th", "thead",
    "title", "tr", "track"]

/-- Elements whose `value` is a property. -/
def valueTags : List String :=
  ["input", "textarea", "option", "select", "progress"]

/-- An element of HTML. -/
def isHtmlTag (tag : String) : Bool :=
  htmlTags.contains tag

/-- An element of SVG. -/
def isSvgTag (tag : String) : Bool :=
  svgTags.contains tag

/-- An element of the platform, so not the name of a component. -/
def isReservedTag (tag : String) : Bool :=
  isHtmlTag tag || isSvgTag tag

/-- The namespace that a tag starts on its own. -/
def tagNamespace (tag : String) : Option String :=
  if isSvgTag tag then some "svg"
  else if tag == "math" then some "math"
  else none

/-- An element without content or end tag. -/
def isUnaryTag (tag : String) : Bool :=
  unaryTags.contains tag

/-- An element that a further one of its kind closes. -/
def canBeLeftOpen (tag : String) : Bool :=
  leftOpenTags.contains tag

/-- An element that closes an open paragraph. -/
def isNonPhrasing (tag : String) : Bool :=
  nonPhrasingTags.contains tag

/-- The element whose white space counts. -/
def isPreTag (tag : String) : Bool :=
  tag == "pre"

/-- An element whose content is text and not markup. -/
def isRawText (tag : String) : Bool :=
  ["script", "style", "textarea"].contains (Text.asciiLower tag)

/-- The attribute is set as a property of the element: its current value, and not the text of
the markup, is what it stands for. -/
def mustUseProp (tag : String) (type : Option String) (attr : String) : Bool :=
  (attr == "value" && valueTags.contains tag && type != some "button") ||
    (attr == "selected" && tag == "option") ||
    (attr == "checked" && tag == "input") ||
    (attr == "muted" && tag == "video")

end ViewTree.Platform
