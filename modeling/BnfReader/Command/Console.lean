import BnfReader.Command.Markup
import BnfReader.Command.Table

/-! What commands print on.

A console prints styled lines and tables of styled texts, and says how a given text is written so
that it stands for itself between tags. Commands are run on any console. The usual one reads tags
as in `Markup`, breaks no line and draws tables as in `Table`, all in a width of 200. -/
namespace BnfReader

/-- A console. A styled text that is not well formed is not printed. -/
structure Console where
  /-- A text that stands for itself in a styled one. -/
  escape : String → String
  /-- A styled text on lines of any length. -/
  line : String → Except Markup.MarkupError String
  /-- A table whose title and cells are styled texts. -/
  table : Table → Except Markup.MarkupError String

namespace Console

/-- The width that the usual console has. -/
def usualWidth : Nat := 200

/-- The usual console. -/
def usual : Console where
  escape := Markup.escape
  line s := (Markup.plain s).map (Layout.printed usualWidth)
  table t := do
    let title ← Markup.plain t.title
    let rows ← t.rows.mapM (·.mapM Markup.plain)
    return { t with title, rows }.render usualWidth

end Console
end BnfReader
