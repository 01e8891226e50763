/-! The files that the service comes with: a page to try grammars on, and a description of
the service. -/
namespace BnfReader.Service

/-- The page. -/
def indexPage : String :=
  "<!DOCTYPE html>
<html lang=\"en\">
<head>
  <meta charset=\"utf-8\">
  <title>bnfparse playground</title>
  <style>
    body \x7b font-family: sans-serif; margin: 2em; max-width: 60em; \x7d
    textarea \x7b width: 100%; height: 14em; font-family: monospace; \x7d
    pre \x7b background: #f4f4f4; padding: 1em; overflow: auto; \x7d
    .error \x7b color: #b00020; \x7d
  </style>
</head>
<body>
  <h1>bnfparse playground</h1>
  <p>Write one rule per line, e.g. <code>&lt;digit&gt; ::= \"0\" | \"1\"</code>.</p>
  <textarea id=\"grammar\">&lt;expr&gt; ::= &lt;term&gt; | &lt;term&gt; \"+\" &lt;expr&gt;
&lt;term&gt; ::= &lt;digit&gt; | \"(\" &lt;expr&gt; \")\"
&lt;digit&gt; ::= \"0\" | \"1\" | \"2\"</textarea>
  <p><button id=\"parse\">Parse</button> <a href=\"/meta-data/api-spec\">API description</a></p>
  <pre id=\"output\"></pre>
  <script>
    document.getElementById(\"parse\").addEventListener(\"click\", async () => \x7b
      const output = document.getElementById(\"output\");
      const response = await fetch(\"/parse\", \x7b
        method: \"POST\",
        headers: \x7b\"Content-Type\": \"text/plain\"\x7d,
        body: document.getElementById(\"grammar\").value,
      \x7d);
      const data = await response.json();
      output.className = response.ok ? \"\" : \"error\";
      output.textContent = response.ok ? JSON.stringify(data, null, 2) : data.error;
    \x7d);
  </script>
</body>
</html>
"

/-- The description of the service. -/
def apiDescription : String :=
  "openapi: 3.0.3
info:
  title: bnfparse API
  version: 0.2.0
  description: Parses BNF grammar text into structured JSON.
paths:
  /parse:
    post:
      summary: Parse a grammar
      requestBody:
        required: true
        content:
          text/plain:
            schema:
              type: string
            example: \"<a> ::= 'b'\\n<c> ::= <a> | \\\"d\\\"\"
      responses:
        \"200\":
          description: The parsed grammar
          content:
            application/json:
              schema:
                $ref: \"#/components/schemas/Grammar\"
        \"400\":
          description: The grammar could not be parsed
          content:
            application/json:
              schema:
                $ref: \"#/components/schemas/ParseError\"
  /:
    get:
      summary: Grammar playground page
      responses:
        \"200\":
          description: HTML page
  /meta-data/api-spec:
    get:
      summary: This document
      responses:
        \"200\":
          description: OpenAPI description in YAML
  /health:
    get:
      summary: Health check
      responses:
        \"200\":
          description: Service status
components:
  schemas:
    Term:
      oneOf:
        - type: object
          required: [type, text]
          properties:
            type: \x7btype: string, enum: [literal]\x7d
            text: \x7btype: string\x7d
        - type: object
          required: [type, name]
          properties:
            type: \x7btype: string, enum: [rule_ref]\x7d
            name: \x7btype: string\x7d
    Rule:
      type: object
      required: [name, alternatives]
      properties:
        name: \x7btype: string\x7d
        alternatives:
          type: array
          items:
            type: array
            items:
              $ref: \"#/components/schemas/Term\"
    Grammar:
      type: object
      required: [rules]
      properties:
        rules:
          type: array
          items:
            $ref: \"#/components/schemas/Rule\"
    ParseError:
      type: object
      required: [error, failure]
      properties:
        error: \x7btype: string\x7d
        failure:
          type: object
          properties:
            offset: \x7btype: integer\x7d
            line: \x7btype: integer\x7d
            column: \x7btype: integer\x7d
            expected:
              type: array
              items: \x7btype: string\x7d
            found: \x7btype: string, nullable: true\x7d
            message: \x7btype: string\x7d
"

end BnfReader.Service
