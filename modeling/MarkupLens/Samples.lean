/-
Sample pages: templates with the contexts they are rendered against. Each
template covers every key of its context, so extraction gives the context
back.
-/
import MarkupLens.Extract
import MarkupLens.Render.Basic

namespace MarkupLens

/-- A template and its context, with a number and a name. -/
structure Sample where
  number : Nat
  name : Text
  template : Text
  context : Context

namespace Sample

/-- The page. -/
def rendered (s : Sample) : Text := Render.render s.context s.template

/-- The context that the page shows. -/
def roundTrip (s : Sample) : Context := Extract.extract s.rendered

/-- A number with two digits or more. -/
def numberText (n : Nat) : Text := List.replicate (2 - (Text.ofNat n).length) '0' ++ Text.ofNat n

/-- The number and the name, as samples are listed. -/
def stem (s : Sample) : Text := numberText s.number ++ '-' :: s.name

/-- Lines, each with its end. -/
def lines (ls : List Text) : Text := ls.flatMap (· ++ ['\n'])

/-- A greeting. -/
def greeting : Sample where
  number := 1
  name := "greeting"
  template := lines [
    "<!DOCTYPE html>",
    "<html>",
    "  <head><title data-nyanString=\"title\">Untitled</title></head>",
    "  <body>",
    "    <h1 data-nyanString=\"name\">Hello</h1>",
    "    <p data-nyanString=\"message\"><!-- No message --></p>",
    "  </body>",
    "</html>"]
  context := .ofList [("title", .text "Greeting"), ("name", .text "Mochi"), ("message", .text "Welcome back")]

/-- A list of tasks. -/
def todoList : Sample where
  number := 2
  name := "todo-list"
  template := lines [
    "<section data-nyanClass=\"theme\">",
    "  <h2 data-nyanString=\"heading\">Todo</h2>",
    "  <ul data-nyanLoop=\"todos\">",
    "    <li data-nyanId=\"slug\">",
    "      <input type=\"checkbox\" data-nyanChecked=\"done\">",
    "      <span data-nyanString=\"label\">Task</span>",
    "    </li>",
    "  </ul>",
    "</section>"]
  context := .ofList [
    ("theme", .text "todo dark"),
    ("heading", .text "Today"),
    ("todos", .list [
      .ofList [("slug", .text "tea"), ("done", .flag true), ("label", .text "Make tea")],
      .ofList [("slug", .text "cat"), ("done", .text ""), ("label", .text "Feed the cat")],
      .ofList [("slug", .text "nap"), ("done", .flag true), ("label", .text "Nap")]])]

/-- A card for a person. -/
def profileCard : Sample where
  number := 3
  name := "profile-card"
  template := lines [
    "<article class=\"card\" data-nyanHtml=\"profile\">",
    "  <a data-nyanHref=\"url\"><img data-nyanSrc=\"avatar\" data-nyanAlt=\"name\"></a>",
    "  <h3 data-nyanString=\"name\">Anonymous</h3>",
    "  <p data-nyanStyle=\"accent\" data-nyanString=\"bio\">No bio yet</p>",
    "</article>",
    "<footer data-nyanString=\"updated\">never</footer>"]
  context := .ofList [
    ("profile", .record (.ofList [
      ("url", .text "https://example.com/mochi"),
      ("avatar", .text "/img/mochi.png"),
      ("name", .text "Mochi"),
      ("accent", .text "color: teal"),
      ("bio", .text "Sleeps a lot.")])),
    ("updated", .text "2024-05-01")]

/-- A menu of sections with links. -/
def nestedMenu : Sample where
  number := 4
  name := "nested-menu"
  template := lines [
    "<nav>",
    "  <div data-nyanLoop=\"sections\">",
    "    <section>",
    "      <h4 data-nyanString=\"title\">Section</h4>",
    "      <ul data-nyanLoop=\"links\">",
    "        <li><a data-nyanHref=\"href\" data-nyanString=\"text\">link</a></li>",
    "      </ul>",
    "    </section>",
    "  </div>",
    "</nav>"]
  context := .ofList [
    ("sections", .list [
      .ofList [
        ("title", .text "Docs"),
        ("links", .list [
          .ofList [("href", .text "/guide"), ("text", .text "Guide")],
          .ofList [("href", .text "/api"), ("text", .text "API")]])],
      .ofList [
        ("title", .text "Community"),
        ("links", .list [
          .ofList [("href", .text "/chat"), ("text", .text "Chat")]])],
      .ofList [("title", .text "Archive"), ("links", .list [])]])]

/-- A form with attributes of every sort. -/
def settingsForm : Sample where
  number := 5
  name := "settings-form"
  template := lines [
    "<form data-nyanId=\"form_id\">",
    "  <label data-nyanFor=\"field\" data-nyanString=\"caption\">Name</label>",
    "  <input type=\"text\" data-nyanId=\"field\" data-nyanName=\"field\" data-nyanValue=\"nickname\">",
    "  <select data-nyanName=\"size_field\">",
    "    <option value=\"s\" data-nyanSelected=\"small\">Small</option>",
    "    <option value=\"l\" data-nyanSelected=\"large\">Large</option>",
    "  </select>",
    "  <button data-nyanDisabled=\"locked\" data-nyanStyle=\"button_style\">Save</button>",
    "</form>"]
  context := .ofList [
    ("form_id", .text "settings"),
    ("field", .text "nickname"),
    ("caption", .text "Nickname"),
    ("nickname", .text "mochi"),
    ("size_field", .text "size"),
    ("small", .flag true),
    ("large", .text ""),
    ("locked", .flag true),
    ("button_style", .text "width: 8em")]

/-- All samples, by number. -/
def all : List Sample := [greeting, todoList, profileCard, nestedMenu, settingsForm]

/-- The sample of a number. -/
def get? (number : Nat) : Option Sample := all.find? (·.number == number)

/-- The wording where a sample is missing. -/
def notFound (number : Nat) : Text := "Sample not found: " ++ numberText number ++ "-*.html"

end Sample

end MarkupLens
