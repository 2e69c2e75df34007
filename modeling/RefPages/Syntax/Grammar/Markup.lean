import RefPages.Syntax.Grammar.Rule

/-!
# Markup elements

Elements, their attributes, and the texts and values between their tags. Whether the two tags of
an element have the same name is not checked.
-/

namespace RefPages.Syntax.Grammar

open Form

def markupNameForm : Form Rule :=
  let part := Form.choice (.token .markupName) (.token (.name []))
  .seq part (.many (.choice (.seq (sym ".") (.token (.name []))) (.seq (sym ":") part)))

/-- A value in braces, which may be missing. -/
def markupValue : Form Rule :=
  let spread := Form.seq (sym "...") (.rule .expression)
  between "\x7b" "\x7d" (opt (.choice spread (.rule .expressions)))

/-- An attribute, or a value whose parts are attributes. -/
def markupAttribute : Form Rule :=
  let value := any [.token .attribute, markupValue] (.rule .element)
  .choice (.seq (.rule .markupName) (opt (.seq (sym "=") value))) markupValue

def elementForm : Form Rule :=
  let child := any
    [.glued .markupText, .token .markupReference, .rule .element] markupValue
  let closing := all [.many child, sym "</", opt (.rule .markupName), sym ">"]
  let opened := .seq (.many markupAttribute) (.choice (sym "/>") (.seq (sym ">") closing))
  .node .other (.seq (sym "<")
    (.choice
      (all [.rule .markupName, opt (.rule .typeArguments), opened])
      (.seq (sym ">") closing)))

end RefPages.Syntax.Grammar
